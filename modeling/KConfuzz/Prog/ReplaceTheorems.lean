import KConfuzz.Prog.LinksTheorems

/-!
# Replacing arguments

`replaceArg` puts the contents of a new tree into the objects of an old one. The new tree is
linked before it is put in: its results refer to results of the program, and these know it. So
consistency is stated for the results of both trees, `mergedIds`, each new result in front of the
one that takes its place.

The contents of a pointer are replaced as a whole, and `replaceArg` does not look at what the
old pointer points to: a caller keeps the pointee or unlinks it with `removeArg`.
-/

namespace KConfuzz

open Lib.ExceptFold List Heap
open Arg hiding id
open Lib.LinkGraph

/-! ## One result -/

/-- Apart from its uses, a result is as the removal of `dropped` leaves it, and it is not used if
it was not. -/
def Kept (dropped : List ArgId) (h h' : Heap) (id : ArgId) : Prop :=
  ∃ r r', h id = some r ∧ h' id = some r' ∧ r' = { r.unlinkFrom dropped with uses := r'.uses } ∧
    (r.uses = [] → r'.uses = [])

variable {h : Heap} {id : ArgId} {r : ResultArg} {dropped ids : List ArgId}

lemma sameButUses_deleteUse (hr : h id = some r) (t u : ArgId) :
    ∃ r', h.deleteUse t u id = some r' ∧ r' = { r with uses := r'.uses } ∧
      ∀ v, v ∈ r'.uses ↔ v ∈ r.uses ∧ ¬ (id = t ∧ v = u) := by
  by_cases hid : id = t
  · subst hid
    refine ⟨{ r with uses := r.uses.filter (· ≠ u) }, ?_, rfl, fun v => ?_⟩
    · rw [deleteUse, modify_self, hr, Option.map_some]
    · simp
  · refine ⟨r, ?_, rfl, fun v => ?_⟩
    · rw [deleteUse, modify_of_ne hid, hr]
    · simp [hid]

lemma sameButUses_addUse (hr : h id = some r) (t u : ArgId) :
    ∃ r', h.addUse t u id = some r' ∧ r' = { r with uses := r'.uses } ∧
      ∀ v, v ∈ r'.uses ↔ v ∈ r.uses ∨ (id = t ∧ v = u) := by
  by_cases hid : id = t
  · subst hid
    refine ⟨{ r with uses := r.uses.insert u }, ?_, rfl, fun v => ?_⟩
    · rw [addUse, modify_self, hr, Option.map_some]
    · simp [or_comm]
  · refine ⟨r, ?_, rfl, fun v => ?_⟩
    · rw [addUse, modify_of_ne hid, hr]
    · simp [hid]

lemma dropLink_apply {h : Heap} {a id : ArgId} {r : ResultArg} (hr : h id = some r) :
    ∃ r', h.dropLink a id = some r' ∧ r' = { r with uses := r'.uses } ∧
      ∀ v, v ∈ r'.uses ↔ v ∈ r.uses ∧ ¬ (h.res a = some id ∧ v = a) := by
  rw [dropLink, ← res]
  cases hres : h.res a with
  | none => exact ⟨r, hr, rfl, fun v => by simp⟩
  | some t =>
    obtain ⟨r', hr', heq, hmem⟩ := sameButUses_deleteUse hr t a
    exact ⟨r', hr', heq, fun v => by rw [hmem]; simp [eq_comm]⟩

lemma moveLink_apply {h : Heap} {a id : ArgId} {r : ResultArg} (y : ResultArg)
    (hr : h id = some r) :
    ∃ r', h.moveLink a y id = some r' ∧ r' = { r with uses := r'.uses } ∧
      ∀ v, v ∈ r'.uses ↔ (v ∈ r.uses ∧ ¬ (y.res = some id ∧ v = y.id)) ∨
        (y.res = some id ∧ v = a) := by
  unfold moveLink
  cases y.res with
  | none => exact ⟨r, hr, rfl, fun v => by simp⟩
  | some t =>
    obtain ⟨r1, hr1, heq1, hmem1⟩ := sameButUses_deleteUse hr t y.id
    obtain ⟨r2, hr2, heq2, hmem2⟩ := sameButUses_addUse hr1 t a
    refine ⟨r2, hr2, by rw [heq2, heq1], fun v => ?_⟩
    rw [hmem2, hmem1]
    simp [eq_comm]

/-- What `replaceResultArg` does to the objects: the replaced one gets the new contents, and for
the others the new user takes the place of the old one. -/
lemma replaceResultArg_apply {a : ArgId} {x : ResultArg} (y : ResultArg) (hx : h a = some x)
    (hr : h id = some r) :
    ∃ r', replaceResultArg h a y id = some r' ∧
      r' = (if id = a then { y with id := x.id, uses := r'.uses } else { r with uses := r'.uses }) ∧
      ∀ v, v ∈ r'.uses ↔
        (v ∈ r.uses ∧ ¬ (x.res = some id ∧ v = a) ∧ ¬ (y.res = some id ∧ v = y.id)) ∨
          (y.res = some id ∧ v = a) := by
  obtain ⟨r1, hr1, heq1, hmem1⟩ := @dropLink_apply h a id r hr
  rw [res_eq hx] at hmem1
  -- the copy
  obtain ⟨r2, hr2, heq2, huses2⟩ : ∃ r2,
      (h.dropLink a).modify a (fun a' => { y with id := a'.id, uses := a'.uses }) id = some r2 ∧
      r2 = (if id = a then { y with id := x.id, uses := r2.uses }
        else { r with uses := r2.uses }) ∧ r2.uses = r1.uses := by
    by_cases hid : id = a
    · subst hid
      rw [hx, Option.some.injEq] at hr
      subst hr
      refine ⟨{ y with id := r1.id, uses := r1.uses }, ?_, ?_, rfl⟩
      · rw [modify_self, hr1, Option.map_some]
      · rw [if_pos rfl, heq1]
    · refine ⟨r1, ?_, ?_, rfl⟩
      · rw [modify_of_ne hid, hr1]
      · rw [if_neg hid]
        exact heq1
  obtain ⟨r3, hr3, heq3, hmem3⟩ := @moveLink_apply _ a id r2 y hr2
  refine ⟨r3, hr3, ?_, fun v => ?_⟩
  · rw [heq3, heq2]
    by_cases hid : id = a <;> simp [hid]
  · rw [hmem3, huses2, hmem1]
    tauto

/-- Replacing a result keeps the links. -/
lemma linked_replaceResultArg {pre post : List ArgId} {a b : ArgId} {y : ResultArg}
    (hlinked : Linked h (pre ++ b :: a :: post)) (hy : h b = some y) (hunused : y.uses = []) :
    Linked (replaceResultArg h a y) (pre ++ a :: post) ∧
      ∀ id ∈ pre ++ post, Kept [] h (replaceResultArg h a y) id := by
  have ha : a ∈ pre ++ b :: a :: post := by simp
  have hb : b ∈ pre ++ b :: a :: post := by simp
  have hsub : ∀ id ∈ pre ++ a :: post, id ∈ pre ++ b :: a :: post := by
    intro id hid
    simp only [mem_append, mem_cons] at hid ⊢
    tauto
  have hsub' : ∀ id ∈ pre ++ post, id ∈ pre ++ b :: a :: post := fun id hid =>
    hsub id (((sublist_cons_self a post).append_left pre).subset hid)
  have hane : a ∉ pre ++ post := by
    have hnodup : (pre ++ a :: post).Nodup :=
      hlinked.graph.nodup.sublist ((sublist_cons_self b _).append_left pre)
    rw [nodup_middle, nodup_cons] at hnodup
    exact hnodup.1
  have hyid : y.id = b := by
    obtain ⟨y', hy', hid⟩ := hlinked.alloc b hb
    rw [hy, Option.some.injEq] at hy'
    rw [hy', hid]
  obtain ⟨x, hx, hxid⟩ := hlinked.alloc a ha
  -- who has the two users among its uses
  have huses : ∀ u z, h u = some z → u ∈ pre ++ b :: a :: post → ∀ id ∈ pre ++ b :: a :: post,
      ∀ r, h id = some r → (u ∈ r.uses ↔ z.res = some id) := by
    intro u z hz hu id hid r hr
    rw [← mem_uses_iff hr, hlinked.graph.mem_uses id hid, res_eq hz, and_iff_right hu]
  have hua := huses a x hx ha
  have hub := huses b y hy hb
  refine ⟨⟨?_, ?_⟩, ?_⟩
  · intro id hid
    obtain ⟨r, hr, hrid⟩ := hlinked.alloc id (hsub id hid)
    obtain ⟨r', hr', heq, -⟩ := replaceResultArg_apply y hx hr
    refine ⟨r', hr', ?_⟩
    rw [heq]
    by_cases hida : id = a
    · rw [if_pos hida, hxid, hida]
    · rw [if_neg hida, hrid]
  · apply hlinked.graph.replace
    · intro u hu
      rw [mem_uses_iff hy, hunused] at hu
      exact absurd hu not_mem_nil
    · obtain ⟨r', hr', heq, -⟩ := replaceResultArg_apply y hx hx
      rw [if_pos rfl] at heq
      rw [res_eq hr', res_eq hy, heq]
    · intro c hc
      have hca : c ≠ a := fun he => hane (he ▸ hc)
      obtain ⟨r, hr, -⟩ := hlinked.alloc c (hsub' c hc)
      obtain ⟨r', hr', heq, -⟩ := replaceResultArg_apply y hx hr
      rw [if_neg hca] at heq
      rw [res_eq hr', res_eq hr, heq]
    · intro id hid u
      obtain ⟨r, hr, -⟩ := hlinked.alloc id (hsub id hid)
      obtain ⟨r', hr', -, hmem⟩ := replaceResultArg_apply y hx hr
      rw [mem_uses_iff hr', mem_uses_iff hr, mem_uses_iff hr, hmem, hyid, hub id (hsub id hid) r hr]
      by_cases hu : u = a
      · subst hu
        rw [hua id (hsub id hid) r hr]
        tauto
      · by_cases hu' : u = b
        · subst hu'
          rw [hub id (hsub id hid) r hr]
          tauto
        · tauto
  · intro id hid
    have hida : id ≠ a := fun he => hane (he ▸ hid)
    obtain ⟨r, hr, -⟩ := hlinked.alloc id (hsub' id hid)
    obtain ⟨r', hr', heq, hmem⟩ := replaceResultArg_apply y hx hr
    rw [if_neg hida] at heq
    refine ⟨r, r', hr, hr', by rwa [ResultArg.unlinkFrom_nil], fun hempty => ?_⟩
    rw [eq_nil_iff_forall_not_mem]
    intro v hv
    rw [hmem, hyid, ← hub id (hsub' id hid) r hr, hempty] at hv
    simp at hv

/-! ## Whole trees -/

@[simp] lemma Arg.resultIds_result (r : ResultArg) : (result r).resultIds = [r.id] := by
  simp [resultIds, subtree, result?]

@[simp] lemma Arg.resultIds_const (id : ArgId) (dir : Dir) (typ : ScalarType) (val : UInt64) :
    (const id dir typ val).resultIds = [] := by
  simp [resultIds, subtree, filterMap_cons, result?]

@[simp] lemma Arg.resultIds_data (id : ArgId) (dir : Dir) (typ : BufferType) (data : List UInt8)
    (size : UInt64) : (Arg.data id dir typ data size).resultIds = [] := by
  simp [Arg.resultIds, Arg.subtree, filterMap_cons, Arg.result?]

@[simp] lemma Arg.resultIds_pointer (id : ArgId) (dir : Dir) (typ : PointerType)
    (address vmaSize : UInt64) (res : Option Arg) :
    (pointer id dir typ address vmaSize res).resultIds = res.elim [] resultIds := by
  cases res <;> simp [resultIds, subtree, subtreeOf, filterMap_cons, result?]

@[simp] lemma Arg.resultIds_union (id : ArgId) (dir : Dir) (typ : UnionType) (option : Arg)
    (index : ℕ) : (union id dir typ option index).resultIds = option.resultIds := by
  simp [resultIds, subtree, filterMap_cons, result?]

mutual

/-- The two trees have the same shape as far as `replaceArg` goes through them. -/
def replaceable (arg arg1 : Arg) : Bool :=
  arg.id != arg1.id && match arg, arg1 with
  | .const .., .const .. | .result _, .result _ | .pointer .., .pointer ..
  | .union .., .union .. | .data .., .data .. => true
  | .group _ _ typ inner, .group _ _ _ inner1 =>
    (!typ.isStruct || inner.length == inner1.length) && replaceableInner inner inner1
  | _, _ => false

def replaceableInner : List Arg → List Arg → Bool
  | arg :: inner, arg1 :: inner1 => replaceable arg arg1 && replaceableInner inner inner1
  | _, _ => true

end

mutual

/-- The results of the old and of the new tree, without those that an old pointer pointed to. -/
def mergedIds : Arg → Arg → List ArgId
  | .result a, .result a1 => [a1.id, a.id]
  | .pointer .., .pointer _ _ _ _ _ res => res.elim [] Arg.resultIds
  | .union _ _ _ option _, .union _ _ _ option1 _ => option.resultIds ++ option1.resultIds
  | .group _ _ _ inner, .group _ _ _ inner1 => mergedInner inner inner1
  | _, _ => []

def mergedInner : List Arg → List Arg → List ArgId
  | arg :: inner, arg1 :: inner1 => mergedIds arg arg1 ++ mergedInner inner inner1
  | inner, [] => inner.flatMap Arg.resultIds
  | [], inner1 => inner1.flatMap Arg.resultIds

end

mutual

/-- The results that are removed: those of old union options and of extra elements. -/
def droppedIds : Arg → Arg → List ArgId
  | .union _ _ _ option _, .union .. => option.resultIds
  | .group _ _ _ inner, .group _ _ _ inner1 => droppedInner inner inner1
  | _, _ => []

def droppedInner : List Arg → List Arg → List ArgId
  | arg :: inner, arg1 :: inner1 => droppedIds arg arg1 ++ droppedInner inner inner1
  | inner, [] => inner.flatMap Arg.resultIds
  | [], _ => []

end

mutual

/-- The new results whose contents are copied into old ones. -/
def copiedIds : Arg → Arg → List ArgId
  | .result _, .result a1 => [a1.id]
  | .group _ _ _ inner, .group _ _ _ inner1 => copiedInner inner inner1
  | _, _ => []

def copiedInner : List Arg → List Arg → List ArgId
  | arg :: inner, arg1 :: inner1 => copiedIds arg arg1 ++ copiedInner inner inner1
  | _, _ => []

end

mutual

lemma copiedIds_subset : ∀ arg arg1 : Arg, copiedIds arg arg1 ⊆ mergedIds arg arg1
  | .result _, arg1 => by
    cases arg1 <;> simp [copiedIds, mergedIds]
  | .group _ _ _ inner, arg1 => by
    cases arg1 with
    | group _ _ _ inner1 => exact copiedInner_subset inner inner1
    | _ => simp [copiedIds]
  | .const .., arg1 | .pointer .., arg1 | .data .., arg1 | .union .., arg1 => by
    cases arg1 <;> simp [copiedIds]

lemma copiedInner_subset : ∀ inner inner1 : List Arg,
    copiedInner inner inner1 ⊆ mergedInner inner inner1
  | arg :: inner, arg1 :: inner1 => by
    rw [copiedInner, mergedInner, append_subset]
    exact ⟨fun b hb => mem_append_left _ (copiedIds_subset arg arg1 hb),
      fun b hb => mem_append_right _ (copiedInner_subset inner inner1 hb)⟩
  | [], inner1 => by
    simp [copiedInner]
  | _ :: _, [] => by
    simp [copiedInner]

end

lemma unlinkFrom_unlinkFrom (dropped dropped' : List ArgId) (r : ResultArg)
    (uses uses' : List ArgId) :
    { ({ r.unlinkFrom dropped with uses } : ResultArg).unlinkFrom dropped' with uses := uses' } =
      { r.unlinkFrom (dropped ++ dropped') with uses := uses' } := by
  cases hres : r.res with
  | none => simp [ResultArg.unlinkFrom, hres]
  | some t =>
    by_cases ht : t ∈ dropped
    · simp [ResultArg.unlinkFrom, hres, ht, ResultArg.defaultArg]
    · by_cases ht' : t ∈ dropped' <;>
        simp [ResultArg.unlinkFrom, hres, ht, ht', ResultArg.defaultArg]

lemma Kept.trans {dropped' : List ArgId} {h1 h2 : Heap} (hkept : Kept dropped h h1 id)
    (hkept' : Kept dropped' h1 h2 id) : Kept (dropped ++ dropped') h h2 id := by
  obtain ⟨r, r1, hr, hr1, heq, huses⟩ := hkept
  obtain ⟨r1', r2, hr1', hr2, heq', huses'⟩ := hkept'
  rw [hr1, Option.some.injEq] at hr1'
  subst hr1'
  refine ⟨r, r2, hr, hr2, ?_, fun hempty => huses' (huses hempty)⟩
  rw [← unlinkFrom_unlinkFrom dropped dropped' r r1.uses, ← heq]
  exact heq'

lemma kept_of_unlinkFrom {h' : Heap} (hlinked : Linked h ids) (hid : id ∈ ids)
    (heq : h' id = (h id).map (ResultArg.unlinkFrom dropped)) : Kept dropped h h' id := by
  obtain ⟨r, hr, -⟩ := hlinked.alloc id hid
  rw [hr, Option.map_some] at heq
  refine ⟨r, r.unlinkFrom dropped, hr, heq, rfl, fun hempty => ?_⟩
  rw [ResultArg.uses_unlinkFrom, hempty, filter_nil]

lemma kept_nil (hlinked : Linked h ids) (hid : id ∈ ids) : Kept [] h h id := by
  obtain ⟨r, hr, -⟩ := hlinked.alloc id hid
  exact ⟨r, r, hr, hr, by rw [ResultArg.unlinkFrom_nil], fun hempty => hempty⟩

mutual

/-- Replacing an argument keeps the links. -/
lemma linked_replaceArg : ∀ (arg arg1 : Arg) {h : Heap} {pre post : List ArgId},
    replaceable arg arg1 = true → Linked h (pre ++ mergedIds arg arg1 ++ post) →
    (∀ b ∈ copiedIds arg arg1, ∀ y, h b = some y → y.uses = []) →
    ∃ h' arg', replaceArg h arg arg1 = .ok (h', arg') ∧
      Linked h' (pre ++ arg'.resultIds ++ post) ∧
      ∀ id ∈ pre ++ post, Kept (droppedIds arg arg1) h h' id
  | .const id .., arg1, h, pre, post, hshape, hlinked, _ => by
    cases arg1 with
    | const _ dir typ val =>
      rw [replaceable, Bool.and_true, bne_iff_ne] at hshape
      refine ⟨h, .const id dir typ val, by rw [replaceArg, if_neg hshape], by simpa [mergedIds]
        using hlinked, fun i hi => kept_nil hlinked (by simpa [mergedIds] using hi)⟩
    | _ => simp [replaceable] at hshape
  | .data id .., arg1, h, pre, post, hshape, hlinked, _ => by
    cases arg1 with
    | data _ dir typ data size =>
      rw [replaceable, Bool.and_true, bne_iff_ne] at hshape
      refine ⟨h, .data id dir typ data size, by rw [replaceArg, if_neg hshape], by simpa [mergedIds]
        using hlinked, fun i hi => kept_nil hlinked (by simpa [mergedIds] using hi)⟩
    | _ => simp [replaceable] at hshape
  | .pointer id .., arg1, h, pre, post, hshape, hlinked, _ => by
    cases arg1 with
    | pointer _ dir typ address vmaSize res =>
      rw [replaceable, Bool.and_true, bne_iff_ne] at hshape
      refine ⟨h, .pointer id dir typ address vmaSize res, by rw [replaceArg, if_neg hshape],
        by simpa [mergedIds] using hlinked, fun i hi => kept_nil hlinked ?_⟩
      simp only [mem_append] at hi ⊢
      tauto
    | _ => simp [replaceable] at hshape
  | .result a, arg1, h, pre, post, hshape, hlinked, hunused => by
    cases arg1 with
    | result a1 =>
      rw [replaceable, Bool.and_true, bne_iff_ne] at hshape
      rw [mergedIds, append_assoc] at hlinked
      obtain ⟨y, hy, -⟩ := hlinked.alloc a1.id (by simp)
      obtain ⟨hlinked', hkept⟩ := linked_replaceResultArg hlinked hy
        (hunused a1.id (by simp [copiedIds]) y hy)
      refine ⟨replaceResultArg h a.id y, .result a, ?_, by simpa using hlinked', hkept⟩
      rw [replaceArg, if_neg hshape]
      simp only [hy]
    | _ => simp [replaceable] at hshape
  | .union id _ _ option _, arg1, h, pre, post, hshape, hlinked, _ => by
    cases arg1 with
    | union _ dir typ option1 index =>
      rw [replaceable, Bool.and_true, bne_iff_ne] at hshape
      rw [mergedIds, ← append_assoc, append_assoc _ option1.resultIds] at hlinked
      obtain ⟨h', hok, hlinked', hfinal⟩ := linked_removeResults hlinked (Perm.refl _)
      refine ⟨h', .union id dir typ option1 index, ?_, by simpa using hlinked', fun i hi => ?_⟩
      · rw [replaceArg, if_neg hshape]
        show removeArg h option >>= _ = _
        rw [removeArg, hok]
        rfl
      · simp only [mem_append] at hi
        refine kept_of_unlinkFrom hlinked ?_ (hfinal i ?_)
        · simp only [mem_append]
          tauto
        · simp only [mem_append]
          tauto
    | _ => simp [replaceable] at hshape
  | .group id _ typ inner, arg1, h, pre, post, hshape, hlinked, hunused => by
    cases arg1 with
    | group _ dir1 typ1 inner1 =>
      simp only [replaceable, Bool.and_eq_true, bne_iff_ne] at hshape
      obtain ⟨hne, hlength, hinner⟩ := hshape
      obtain ⟨h', inner', hok, hlinked', hkept⟩ :=
        linked_replaceInner inner inner1 hinner hlinked hunused
      refine ⟨h', .group id dir1 typ1 inner', ?_, by simpa using hlinked', hkept⟩
      have hfail : failIf (typ.isStruct = true ∧ inner.length ≠ inner1.length)
          "replaceArg: group fields don't match" = .ok () := by
        rw [failIf_eq_ok_iff]
        simp only [Bool.or_eq_true, Bool.not_eq_true', beq_iff_eq] at hlength
        rintro ⟨hstruct, hne⟩
        rcases hlength with hlength | hlength
        · rw [hlength] at hstruct
          cases hstruct
        · exact hne hlength
      rw [replaceArg, if_neg hne]
      simp only [hfail, hok]
      rfl
    | _ => simp [replaceable] at hshape

/-- Replacing fields one by one keeps the links. -/
lemma linked_replaceInner : ∀ (inner inner1 : List Arg) {h : Heap} {pre post : List ArgId},
    replaceableInner inner inner1 = true → Linked h (pre ++ mergedInner inner inner1 ++ post) →
    (∀ b ∈ copiedInner inner inner1, ∀ y, h b = some y → y.uses = []) →
    ∃ h' inner', replaceInner h inner inner1 = .ok (h', inner') ∧
      Linked h' (pre ++ inner'.flatMap resultIds ++ post) ∧
      ∀ id ∈ pre ++ post, Kept (droppedInner inner inner1) h h' id
  | arg :: inner, arg1 :: inner1, h, pre, post, hshape, hlinked, hunused => by
    rw [replaceableInner, Bool.and_eq_true] at hshape
    rw [mergedInner, ← append_assoc, append_assoc _ (mergedInner _ _)] at hlinked
    obtain ⟨h1, arg', hok, hlinked1, hkept⟩ := linked_replaceArg arg arg1 hshape.1 hlinked
      fun b hb => hunused b (mem_append_left _ hb)
    rw [← append_assoc] at hlinked1
    -- the results that are still to be copied are still unused
    obtain ⟨h2, inner', hok', hlinked2, hkept'⟩ := linked_replaceInner inner inner1 hshape.2 hlinked1
      (by
        intro b hb y hy
        have hmem := copiedInner_subset inner inner1 hb
        obtain ⟨r, r', hr, hr', -, hempty⟩ := hkept b (by simp [hmem])
        rw [hr', Option.some.injEq] at hy
        rw [← hy]
        exact hempty (hunused b (mem_append_right _ hb) r hr))
    refine ⟨h2, arg' :: inner', ?_, ?_, fun id hid => ?_⟩
    · rw [replaceInner, hok]
      show replaceInner h1 inner inner1 >>= _ = _
      rw [hok']
      rfl
    · rw [flatMap_cons, ← append_assoc]
      exact hlinked2
    · simp only [mem_append] at hid
      refine (hkept id ?_).trans (hkept' id ?_)
      · simp only [mem_append]
        tauto
      · simp only [mem_append]
        tauto
  | [], inner1, h, pre, post, _, hlinked, _ => by
    have hmerged : mergedInner [] inner1 = inner1.flatMap resultIds := by
      cases inner1 <;> simp [mergedInner]
    have hok : replaceInner h [] inner1 = .ok (h, inner1) := by
      cases inner1 <;> rfl
    have hdropped : droppedInner [] inner1 = [] := by
      cases inner1 <;> simp [droppedInner]
    rw [hmerged] at hlinked
    refine ⟨h, inner1, hok, hlinked, fun id hid => ?_⟩
    rw [hdropped]
    apply kept_nil hlinked
    simp only [mem_append] at hid ⊢
    tauto
  | arg :: inner, [], h, pre, post, _, hlinked, _ => by
    · have hperm : ((arg :: inner).reverse.flatMap resultIds).Perm
          ((arg :: inner).flatMap resultIds) := (reverse_perm _).flatMap_right _
      obtain ⟨h', hok, hlinked', hfinal⟩ := linked_removeResults hlinked hperm
      rw [← foldlM_removeArg] at hok
      refine ⟨h', [], ?_, by simpa using hlinked', fun id hid => ?_⟩
      · rw [replaceInner, hok]
        rfl
      · refine kept_of_unlinkFrom hlinked ?_ (hfinal id hid)
        simp only [mem_append] at hid ⊢
        tauto

end

/-! ## Integrity -/

/-- Removing a call or an argument, replacing an argument and inserting calls keep the graph
consistent. Of the results that stay only those change that used a removed one or were used by
one. -/
theorem linked_of_change :
    (∀ (p : Prog) (idx : ℕ) (c : Call), Linked p.heap p.resultIds → p.calls[idx]? = some c →
      ∃ p', p.removeCallLinks idx = .ok p' ∧ Linked p'.heap p'.resultIds ∧
        p'.target = p.target ∧
        p'.calls = (p.calls.eraseIdx idx).map
          (Call.mapResults (ResultArg.unlinkFrom c.resultIds))) ∧
    (∀ (h : Heap) (arg0 : Arg) (pre post : List ArgId),
      Linked h (pre ++ arg0.resultIds ++ post) →
      ∃ h', removeArg h arg0 = .ok h' ∧ Linked h' (pre ++ post) ∧
        ∀ id ∈ pre ++ post, h' id = (h id).map (ResultArg.unlinkFrom arg0.resultIds)) ∧
    (∀ (h : Heap) (arg arg1 : ResultArg) (pre post : List ArgId),
      Linked h (pre ++ arg1.id :: arg.id :: post) → h arg1.id = some arg1 → arg1.uses = [] →
      Linked (replaceResultArg h arg.id arg1) (pre ++ arg.id :: post) ∧
        ∀ id ∈ pre ++ post, Kept [] h (replaceResultArg h arg.id arg1) id) ∧
    (∀ (h : Heap) (arg arg1 : Arg) (pre post : List ArgId), replaceable arg arg1 = true →
      Linked h (pre ++ mergedIds arg arg1 ++ post) →
      (∀ b ∈ copiedIds arg arg1, ∀ y, h b = some y → y.uses = []) →
      ∃ h' arg', replaceArg h arg arg1 = .ok (h', arg') ∧
        Linked h' (pre ++ arg'.resultIds ++ post) ∧
        ∀ id ∈ pre ++ post, Kept (droppedIds arg arg1) h h' id) ∧
    (∀ (p : Prog) (idx : ℕ) (calls : List Call)
      (hcalls : ∀ c ∈ calls, c.callMeta ∈ p.target.syscalls) (h : Heap),
      Linked h ((p.calls.take idx).flatMap Call.resultIds ++
        calls.flatMap Call.resultIds ++ (p.calls.drop idx).flatMap Call.resultIds) →
      Linked h (p.insertBefore idx calls hcalls).resultIds ∧
        (p.insertBefore idx calls hcalls).calls =
          p.calls.take idx ++ calls ++ p.calls.drop idx) := by
  refine ⟨?_, ?_, ?_, ?_, ?_⟩
  · intro p idx c hlinked hc
    exact removeCallLinks_spec hlinked hc
  · intro h arg0 pre post hlinked
    exact linked_removeResults hlinked (Perm.refl _)
  · intro h arg arg1 pre post hlinked harg1 hunused
    exact linked_replaceResultArg hlinked harg1 hunused
  · intro h arg arg1 pre post hshape hlinked hunused
    exact linked_replaceArg arg arg1 hshape hlinked hunused
  · intro p idx calls hcalls h hlinked
    refine ⟨?_, rfl⟩
    rw [Prog.resultIds, Prog.insertBefore, flatMap_append, flatMap_append]
    exact hlinked

/-! A program `r0 = dup(0xffffffffffffffff); write(r0)` in which the `write` gets its descriptor
behind a pointer. -/

def fdType : ResourceType :=
  { typeName := "fd", typeSize := 4, argFormat := .formatNative
    desc := ⟨"fd", [0xffffffffffffffff], by simp⟩ }

def fdArg (id : ArgId) (dir : Dir) (res : Option ArgId) (uses : List ArgId) : ResultArg :=
  { id, dir, typ := fdType, res, opDiv := 0, opAdd := 0, val := 0, uses }

def fdPointer (id : ArgId) (res : Option Arg) : Arg :=
  .pointer id .dirIn (.ptr ⟨"ptr", 8⟩) 0 0 res

def linkedProg : Prog :=
  { target :=
      { syscalls := [{ id := 0, name := "dup" }, { id := 1, name := "write" }]
        dataOffset := 0x20000000, specialPointers := [0] }
    calls :=
      [ { callMeta := { id := 0, name := "dup" }, args := [.result (fdArg 0 .dirIn none [])]
          ret := some (fdArg 1 .dirOut none [3]), props := .zero },
        { callMeta := { id := 1, name := "write" }
          args := [fdPointer 2 (some (.result (fdArg 3 .dirIn (some 1) [])))]
          ret := none, props := .zero } ]
    callMeta_mem := by decide }

/-- Without the `dup`, the descriptor is the default one. -/
theorem linked_removeCallLinks_linkedProg :
    ∃ p', linkedProg.removeCallLinks 0 = .ok p' ∧ Linked p'.heap p'.resultIds ∧
      results p'.calls = [{ fdArg 3 .dirIn none [] with val := 0xffffffffffffffff }] := by
  obtain ⟨p', hok, hlinked, -, hcalls⟩ := linked_of_change.1 linkedProg 0 _ (by decide) rfl
  refine ⟨p', hok, hlinked, ?_⟩
  rw [hcalls, results_mapResults]
  decide

theorem foldlM_removeCallLinks_linkedProg :
    ∃ p', [1, 0].foldlM Prog.removeCallLinks linkedProg = .ok p' ∧ p'.calls = [] := by
  obtain ⟨p', hok, rfl, -⟩ := @foldlM_removeCallLinks linkedProg (by decide) [1, 0] (by decide)
  exact ⟨_, hok, by decide⟩

/-- The pointer is replaced by the null pointer: the `dup` still has the descriptor among its
uses, which is no longer in the program. -/
theorem not_linked_replaceArg_pointer :
    ∃ arg h' arg', Linked linkedProg.heap linkedProg.resultIds ∧
      linkedProg.resultIds = [0, 1] ++ arg.resultIds ∧
      linkedProg.calls[1]?.map Call.args = some [arg] ∧
      replaceArg linkedProg.heap arg (fdPointer 4 none) = .ok (h', arg') ∧
      ¬ Linked h' ([0, 1] ++ arg'.resultIds) := by
  refine ⟨fdPointer 2 (some (.result (fdArg 3 .dirIn (some 1) []))), linkedProg.heap,
    fdPointer 2 none, ?_, ?_, rfl, rfl, ?_⟩
  · decide
  · decide
  · decide

end KConfuzz
