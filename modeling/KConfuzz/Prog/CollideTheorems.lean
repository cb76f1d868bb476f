import KConfuzz.Prog.CloneTheorems

/-!
# Race transformations and validity

`DoubleExecCollide` appends copies of all calls, so what they refer to stands before them.
`DupCallCollide` puts a copy in front of its original: a reference to a result of the same call
then points to a later one. `AssignRandomRerun` lets calls run again without a look at their fault
injection, which `validate` does not accept.
-/

namespace KConfuzz

open Lib.ExceptFold List ResultArg Call
open Lib.LinkGraph

/-! ## Copies behind the program -/

/-- The calls differ in whether they are asynchronous. -/
def SameButAsync (calls calls' : List Call) : Prop :=
  List.Forall₂ (fun c c' => ∃ async, c' = c.setAsync async) calls calls'

lemma valid_of_async {desc : Call → Prop} (hdesc : IsDescCheck desc) {p p' : Prog}
    (hvalid : Valid desc p) (htarget : p'.target = p.target)
    (hcalls : SameButAsync p.calls p'.calls) : Valid desc p' := by
  have hsame : SameButProps p.calls p'.calls := by
    refine hcalls.imp ?_
    rintro c c' ⟨async, rfl⟩
    rfl
  rw [valid_iff_of_props hdesc hvalid htarget hsame]
  intro c' hc'
  obtain ⟨c, hc, async, rfl⟩ := exists_mem_of_forall₂ hcalls hc'
  exact ((validate_eq_ok_iff.1 hvalid.validate).1 c hc).props

lemma cloneLinks_dup (fresh : ArgId → ArgId) (calls : List Call) :
    cloneLinks fresh false calls = .ok (linksOf fresh false (calls.flatMap cloneOrder)) :=
  cloneLinks_eq_ok_iff.2 ⟨fun h => (by cases h), rfl⟩

lemma mem_uses_addUses_dup {fresh : ArgId → ArgId} {calls : List Call} {r : ResultArg} {u : ArgId} :
    u ∈ (r.addUses (linksOf fresh false (calls.flatMap cloneOrder))).uses ↔
      u ∈ r.uses ∨ ∃ a ∈ results calls, a.res = some r.id ∧ u = fresh a.id := by
  rw [mem_uses_addUses, mem_linksOf_cloneOrder]
  refine or_congr_right ?_
  constructor
  · rintro ⟨a, ha, res, hres, hid, rfl⟩
    exact ⟨a, ha, by rw [hres, hid]; rfl, rfl⟩
  · rintro ⟨a, ha, hres, rfl⟩
    exact ⟨a, ha, r.id, hres, rfl, rfl⟩

lemma map_id_results_addUses (links : List (ArgId × ArgId)) (rs : List ResultArg) :
    (rs.map (addUses links)).map ResultArg.id = rs.map ResultArg.id := by
  rw [map_map]
  rfl

lemma map_id_results_copyResult (fresh : ArgId → ArgId) (remap : Bool) (rs : List ResultArg) :
    (rs.map (copyResult fresh remap)).map ResultArg.id = (rs.map ResultArg.id).map fresh := by
  rw [map_map, map_map]
  rfl

/-- The calls and copies of some of them, in an order that keeps results before their uses. -/
lemma valid_of_dups {desc : Call → Prop} (hdesc : IsDescCheck desc) {prog p' : Prog}
    (hvalid : Valid desc prog) {dups calls : List Call} {links : List (ArgId × ArgId)}
    (hl : linksOf prog.fresh false (dups.flatMap cloneOrder) = links)
    (hdups : dups.Sublist prog.calls) (htarget : p'.target = prog.target)
    (hcalls : SameButAsync calls p'.calls)
    (hperm : calls.Perm (prog.calls.map (copy id (addUses links)) ++ dups.map prog.dupCall))
    (horder : ((results prog.calls).map ResultArg.id).Sublist ((results calls).map ResultArg.id))
    (hrefs : ∀ a ∈ results dups, ∀ t, a.res = some t →
      [t, prog.fresh a.id].Sublist ((results calls).map ResultArg.id)) : Valid desc p' := by
  -- the program before the copies are made asynchronous
  have hmem : ∀ c ∈ calls, ∃ c' ∈ prog.calls, c'.callMeta = c.callMeta := by
    intro c hc
    have := hperm.mem_iff.mp hc
    rw [mem_append, mem_map, mem_map] at this
    rcases this with ⟨c', hc', rfl⟩ | ⟨c', hc', rfl⟩
    · exact ⟨c', hc', rfl⟩
    · exact ⟨c', hdups.subset hc', rfl⟩
  have hbase : Valid desc (prog.withCalls calls hmem) := by
    have hcopies : IsCopies prog.fresh (addUses links) prog (prog.withCalls calls hmem) dups := by
      refine ⟨rfl, hdups, prog.isFresh, fun _ => rfl, fun r _ u => ?_, hperm⟩
      rw [← hl]
      exact mem_uses_addUses_dup
    exact hcopies.valid hdesc hvalid horder hrefs
  exact valid_of_async hdesc hbase htarget hcalls

/-- Running a program twice gives a valid program. -/
lemma doubleExecCollide_valid {desc : Call → Prop} (hdesc : IsDescCheck desc) {p : Prog}
    (hvalid : Valid desc p) (hself : ∀ r ∈ results p.calls, r.res ≠ some r.id)
    (hsize : ¬ p.calls.length * 2 > maxCalls) :
    ∃ p', doubleExecCollide p = .ok (.ok p') ∧ Valid desc p' ∧ p'.calls.length ≤ maxCalls := by
  obtain ⟨prog, g, hclone, hcalls, hg, hvalid'⟩ := clone_of_valid hdesc hvalid hself
  have hlinks := cloneLinks_dup prog.fresh prog.calls
  generalize hl : linksOf prog.fresh false (prog.calls.flatMap cloneOrder) = links at hlinks
  have hresults : (results (prog.calls.map (copy id (addUses links)) ++
        prog.calls.map prog.dupCall)).map ResultArg.id =
      (results prog.calls).map ResultArg.id ++
        ((results prog.calls).map ResultArg.id).map prog.fresh := by
    show (results (_ ++ prog.calls.map (copy prog.fresh _))).map ResultArg.id = _
    rw [results_append, results_copy, results_copy, map_append, map_id_results_addUses,
      map_id_results_copyResult]
  have hmem : ∀ c ∈ prog.calls.map (copy id (addUses links)) ++
      (prog.calls.map prog.dupCall).mapIdx fun i c =>
        if i < maxAsyncPerProg then c.setAsync true else c,
      ∃ c' ∈ prog.calls, c'.callMeta = c.callMeta := by
    intro c hc
    rw [mem_append] at hc
    rcases hc with hc | hc
    · obtain ⟨c', hc', rfl⟩ := mem_map.mp hc
      exact ⟨c', hc', rfl⟩
    · obtain ⟨i, hi, rfl⟩ := mem_mapIdx.mp hc
      obtain ⟨c', hc', heq⟩ := mem_map.mp (getElem_mem hi)
      refine ⟨c', hc', ?_⟩
      rw [← heq]
      split
      · rfl
      · rfl
  refine ⟨prog.withCalls _ hmem, ?_, ?_, ?_⟩
  · simp only [doubleExecCollide, if_neg hsize, hclone, bind, Except.bind, hlinks]
    rfl
  · refine valid_of_dups hdesc hvalid' hl (Sublist.refl _) rfl ?_ (Perm.refl _) ?_ ?_
    · refine rel_append ?_ ?_
      · rw [forall₂_same]
        exact fun c _ => ⟨c.props.async, rfl⟩
      · rw [forall₂_iff_get]
        refine ⟨by simp, fun i h₁ h₂ => ?_⟩
        simp only [get_eq_getElem, getElem_mapIdx]
        split
        · exact ⟨true, rfl⟩
        · exact ⟨_, rfl⟩
    · rw [hresults]
      exact sublist_append_left ..
    · intro a ha t ht
      rw [hresults]
      obtain ⟨x, hx, rfl, -⟩ := (validate_eq_ok_iff.1 hvalid'.validate).2.2.2.known a ha t ht
      refine (singleton_sublist.mpr ?_).append (singleton_sublist.mpr ?_)
      · exact mem_map_of_mem hx
      · exact mem_map_of_mem (mem_map_of_mem ha)
  · have hlength : prog.calls.length = p.calls.length := by rw [hcalls, length_map]
    show (_ ++ _ : List Call).length ≤ maxCalls
    rw [length_append, length_map, length_mapIdx, length_map, hlength]
    omega

/-! ## Copies in front of the calls -/

/-- The loop of `DupCallCollide` over the calls with their indices. -/
def insertCopies (d f : Call → Call) (duplicate : List ℕ) (calls : List (Call × ℕ)) : List Call :=
  calls.flatMap fun (c, i) => if i ∈ duplicate then [d c, f c] else [f c]

lemma insertCopies_cons (d f : Call → Call) (duplicate : List ℕ) (x : Call × ℕ)
    (calls : List (Call × ℕ)) : insertCopies d f duplicate (x :: calls) =
      (if x.2 ∈ duplicate then [d x.1, f x.1] else [f x.1]) ++ insertCopies d f duplicate calls :=
  flatMap_cons

lemma insertCopies_split {d f : Call → Call} {duplicate : List ℕ} {c : Call} {i : ℕ}
    (hi : i ∈ duplicate) (z z' : List (Call × ℕ)) :
    insertCopies d f duplicate (z ++ (c, i) :: z') =
      insertCopies d f duplicate z ++ ([d c] ++ ([f c] ++ insertCopies d f duplicate z')) := by
  have happend : insertCopies d f duplicate (z ++ (c, i) :: z') =
      insertCopies d f duplicate z ++ insertCopies d f duplicate ((c, i) :: z') :=
    flatMap_append
  rw [happend, insertCopies_cons, if_pos hi]
  rfl

section

variable (d f : Call → Call) (duplicate : List ℕ) (calls : List (Call × ℕ))

lemma perm_insertCopies :
    (insertCopies d f duplicate calls).Perm ((calls.map Prod.fst).map f ++
      ((calls.filter (·.2 ∈ duplicate)).map Prod.fst).map d) := by
  induction calls with
  | nil => exact .refl _
  | cons x calls ih =>
    rw [insertCopies_cons, map_cons, map_cons, cons_append]
    by_cases hx : x.2 ∈ duplicate
    · rw [if_pos hx, filter_cons_of_pos (by simpa using hx), map_cons, map_cons]
      refine (Perm.swap _ _ _).trans (.cons _ ?_)
      exact (ih.cons _).trans perm_middle.symm
    · rw [if_neg hx, filter_cons_of_neg (by simpa using hx)]
      exact ih.cons _

lemma sublist_insertCopies :
    ((calls.map Prod.fst).map f).Sublist (insertCopies d f duplicate calls) := by
  induction calls with
  | nil => exact .refl _
  | cons x calls ih =>
    rw [insertCopies_cons, map_cons, map_cons]
    by_cases hx : x.2 ∈ duplicate
    · rw [if_pos hx]
      exact (ih.cons_cons _).cons _
    · rw [if_neg hx]
      exact ih.cons_cons _

lemma sublist_results_insertCopies (links : List (ArgId × ArgId)) :
    ((results (calls.map Prod.fst)).map ResultArg.id).Sublist ((results
      (insertCopies d (copy id (addUses links)) duplicate calls)).map ResultArg.id) := by
  have hs := sublist_insertCopies d (copy id (addUses links)) duplicate calls
  have hs' := ((hs.flatMap nodes).filterMap Arg.result?).map ResultArg.id
  change ((results _).map ResultArg.id).Sublist ((results _).map ResultArg.id) at hs'
  rwa [results_copy, map_id_results_addUses] at hs'

lemma sameButAsync_insertCopies : SameButAsync (insertCopies d f duplicate calls)
      (insertCopies (fun c => (d c).setAsync true) f duplicate calls) := by
  have hsame : ∀ c : Call, ∃ async, c = c.setAsync async := fun c => ⟨c.props.async, rfl⟩
  induction calls with
  | nil => exact .nil
  | cons x calls ih =>
    rw [insertCopies_cons, insertCopies_cons]
    by_cases hx : x.2 ∈ duplicate
    · rw [if_pos hx, if_pos hx]
      exact .cons ⟨true, rfl⟩ (.cons (hsame _) ih)
    · rw [if_neg hx, if_neg hx]
      exact .cons (hsame _) ih

end

lemma length_filter_zipIdx_le (calls : List Call) (duplicate : List ℕ) :
    (calls.zipIdx.filter (·.2 ∈ duplicate)).length ≤ duplicate.length := by
  rw [← length_map Prod.snd]
  apply Subperm.length_le
  apply Nodup.subperm
  · refine Nodup.sublist (filter_sublist.map Prod.snd) ?_
    rw [zipIdx_map_snd]
    exact nodup_range'
  · refine forall_mem_map.mpr fun x hx => ?_
    simpa using (mem_filter.mp hx).2

/-- The call reads one of its own results. -/
def Call.ReadsOwn (c : Call) : Prop :=
  ∃ a ∈ results [c], ∃ t ∈ a.res, t ∈ (results [c]).map ResultArg.id

lemma readsOwn_copy {g : ResultArg → ResultArg} (hg : ∀ r, g r = { r with uses := (g r).uses })
    (c : Call) : (c.copy id g).ReadsOwn ↔ c.ReadsOwn := by
  have hid : ∀ r, (g r).id = r.id := fun r => by rw [hg r]
  have hres : ∀ r, (g r).res = r.res := fun r => by rw [hg r]
  have hresults : results [c.copy id g] = (results [c]).map g := results_copy id g [c]
  have hids : ((results [c]).map g).map ResultArg.id = (results [c]).map ResultArg.id := by
    rw [map_map]
    exact map_congr_left fun r _ => hid r
  unfold Call.ReadsOwn
  rw [hresults, hids]
  simp only [mem_map, exists_exists_and_eq_and, hres]

/-- What a call of a valid program refers to stands in an earlier call, unless it is its own. -/
lemma mem_results_of_res {p : Prog} (hvalid : p.validate = .ok ()) {calls calls' : List Call}
    {c : Call} (hsplit : p.calls = calls ++ c :: calls') (hown : ¬ c.ReadsOwn) {a : ResultArg}
    (ha : a ∈ results [c]) {t : ArgId} (ht : a.res = some t) :
    t ∈ (results calls).map ResultArg.id := by
  obtain ⟨-, hnodup, -, hlinks⟩ := validate_eq_ok_iff.1 hvalid
  have hids : ((results p.calls).map ResultArg.id).Nodup := nodup_results hnodup
  have hnot : t ∉ (results [c]).map ResultArg.id := fun hmem => hown ⟨a, ha, t, ht, hmem⟩
  have hne : t ≠ a.id := fun he => hnot (he ▸ mem_map_of_mem ha)
  have hmem : a ∈ results p.calls := results_singleton_subset (by rw [hsplit]; simp) ha
  have hsub := (hlinks.earlier a hmem t ht).resolve_left hne
  obtain ⟨pre, post, hpre⟩ := append_of_mem ha
  have hresults : results p.calls = (results calls ++ pre) ++ a :: (post ++ results calls') := by
    rw [hsplit, results_append, ← singleton_append, results_append, hpre]
    simp
  rw [hresults, map_append, map_cons] at hids hsub
  have hearlier := mem_of_sublist_pair hids hsub
  rw [map_append, mem_append] at hearlier
  refine hearlier.resolve_right fun hpre' => hnot ?_
  rw [hpre, map_append]
  exact mem_append_left _ hpre'

lemma dupInsert_eq_zero_iff (n : ℕ) : dupInsert n = 0 ↔ maxCalls ≤ n := by
  unfold dupInsert maxCalls maxAsyncPerProg
  omega

lemma add_dupInsert_le {n : ℕ} (hn : n ≤ maxCalls) : n + dupInsert n ≤ maxCalls := by
  unfold dupInsert maxAsyncPerProg
  omega

section DupCall

variable {desc : Call → Prop} (hdesc : IsDescCheck desc) {p : Prog} (hvalid : Valid desc p)

/-- `DupCallCollide` after the checks of the size and the clone. -/
lemma dupCallCollide_eq {perm : List ℕ} {prog : Prog} (hclone : p.clone = .ok prog)
    (hsmall : 2 ≤ p.calls.length) (hbig : p.calls.length < maxCalls) :
    ∃ p', dupCallCollide perm p = .ok (.ok p') ∧ p'.target = prog.target ∧
      p'.calls = insertCopies (fun c => (prog.dupCall c).setAsync true)
        (copy id (addUses (linksOf prog.fresh false
          (((prog.calls.zipIdx.filter (·.2 ∈ perm.take (dupInsert p.calls.length))).map
            Prod.fst).flatMap cloneOrder))))
        (perm.take (dupInsert p.calls.length)) prog.calls.zipIdx := by
  have hinsert : dupInsert p.calls.length ≠ 0 := by
    rw [Ne, dupInsert_eq_zero_iff]
    omega
  simp only [dupCallCollide, if_neg (Nat.not_lt.mpr hsmall), if_neg hinsert, hclone, bind,
    Except.bind, cloneLinks_dup]
  exact ⟨_, rfl, rfl, rfl⟩

include hdesc in
/-- Running some calls twice gives a valid program. -/
lemma dupCallCollide_valid {prog : Prog} (hvalid' : Valid desc prog)
    (hown : ∀ c ∈ prog.calls, ¬ c.ReadsOwn) {duplicate : List ℕ} {p' : Prog}
    (htarget : p'.target = prog.target)
    (hcalls : p'.calls = insertCopies (fun c => (prog.dupCall c).setAsync true)
      (copy id (addUses (linksOf prog.fresh false
        (((prog.calls.zipIdx.filter (·.2 ∈ duplicate)).map Prod.fst).flatMap cloneOrder))))
      duplicate prog.calls.zipIdx) : Valid desc p' := by
  generalize hdups : (prog.calls.zipIdx.filter (·.2 ∈ duplicate)).map Prod.fst = dups at hcalls
  generalize hl : linksOf prog.fresh false (dups.flatMap cloneOrder) = links at hcalls
  have hfst : prog.calls.zipIdx.map Prod.fst = prog.calls := zipIdx_map_fst ..
  have hperm := perm_insertCopies prog.dupCall (copy id (addUses links)) duplicate prog.calls.zipIdx
  have hsame := sameButAsync_insertCopies prog.dupCall (copy id (addUses links)) duplicate
    prog.calls.zipIdx
  rw [hdups, hfst] at hperm
  rw [← hcalls] at hsame
  have hsub : dups.Sublist prog.calls := by
    rw [← hdups]
    nth_rewrite 2 [← hfst]
    exact filter_sublist.map Prod.fst
  refine valid_of_dups hdesc hvalid' hl hsub htarget hsame hperm ?_ ?_
  · nth_rewrite 1 [← hfst]
    exact sublist_results_insertCopies ..
  · intro a ha t ht
    -- the copy of a call stands right after the calls before it
    rw [results, filterMap_flatMap, mem_flatMap] at ha
    obtain ⟨c, hc, hac⟩ := ha
    rw [← hdups, mem_map] at hc
    obtain ⟨⟨c, i⟩, hci, rfl⟩ := hc
    rw [mem_filter, decide_eq_true_eq] at hci
    obtain ⟨z, z', hz⟩ := append_of_mem hci.1
    have hsplit : prog.calls = z.map Prod.fst ++ c :: z'.map Prod.fst := by
      rw [← hfst, hz, map_append, map_cons]
    have hac' : a ∈ results [c] := by
      rw [results, flatMap_singleton]
      exact hac
    have ht' := mem_results_of_res hvalid'.validate hsplit (hown c (by rw [hsplit]; simp)) hac' ht
    rw [hz, insertCopies_split hci.2, results_append, map_append]
    refine (singleton_sublist.mpr ?_).append (singleton_sublist.mpr ?_)
    · exact (sublist_results_insertCopies ..).subset ht'
    · have hmem' : prog.fresh a.id ∈ (results [prog.dupCall c]).map ResultArg.id := by
        have hr : results [prog.dupCall c] = (results [c]).map (copyResult prog.fresh false) :=
          results_copy prog.fresh (copyResult prog.fresh false) [c]
        rw [hr, map_id_results_copyResult]
        exact mem_map_of_mem (mem_map_of_mem hac')
      obtain ⟨r, hr, hrid⟩ := mem_map.mp hmem'
      rw [← hrid]
      exact mem_map_of_mem (results_singleton_subset (by simp) hr)

/-- A copy of a call that reads its own results refers to a result behind it. -/
lemma not_validate_of_readsOwn {prog p' : Prog} {duplicate : List ℕ}
    {links : List (ArgId × ArgId)}
    (hcalls : p'.calls = insertCopies (fun c => (prog.dupCall c).setAsync true)
      (copy id (addUses links)) duplicate prog.calls.zipIdx)
    {c : Call} {i : ℕ} (hci : (c, i) ∈ prog.calls.zipIdx) (hi : i ∈ duplicate)
    (hown : c.ReadsOwn) : p'.validate ≠ .ok () := by
  intro hok
  obtain ⟨-, hnodup, -, hlinks⟩ := validate_eq_ok_iff.1 hok
  have hids : ((results p'.calls).map ResultArg.id).Nodup := nodup_results hnodup
  obtain ⟨a, ha, t, ht, hmem⟩ := hown
  obtain ⟨z, z', hz⟩ := append_of_mem hci
  have hcopy : results [(prog.dupCall c).setAsync true] =
      (results [c]).map (copyResult prog.fresh false) :=
    results_copy prog.fresh (copyResult prog.fresh false) [c]
  have horig : results [c.copy id (addUses links)] =
      (results [c]).map (addUses links) := results_copy id (addUses links) [c]
  let copies := insertCopies (fun c => (prog.dupCall c).setAsync true) (copy id (addUses links))
    duplicate
  have hresults : results p'.calls = results (copies z) ++
      ((results [c]).map (copyResult prog.fresh false) ++
        ((results [c]).map (addUses links) ++ results (copies z'))) := by
    rw [hcalls, hz, insertCopies_split hi, results_append, results_append, results_append, hcopy,
      horig]
  have hacopy : copyResult prog.fresh false a ∈ results p'.calls := by
    rw [hresults]
    simp only [mem_append]
    exact .inr (.inl (mem_map_of_mem ha))
  have hres : (copyResult prog.fresh false a).res = some t := by
    rw [Option.mem_def] at ht
    simp [copyResult, cloneRes, ht]
  rcases hlinks.earlier _ hacopy t hres with heq | hsub
  · -- the copy has an identity of its own
    refine prog.isFresh.notMem a.id ?_
    change t = prog.fresh a.id at heq
    rw [← heq]
    obtain ⟨r, hr, rfl⟩ := mem_map.mp hmem
    have := results_singleton_subset (fst_mem_of_mem_zipIdx hci) hr
    exact mem_map.mpr ⟨.result r, mem_filterMap_result?.1 this, rfl⟩
  · refine not_sublist_swap hids hsub ?_
    rw [hresults, map_append, map_append, map_append]
    refine Sublist.trans ?_ (sublist_append_right ..)
    refine (singleton_sublist.mpr ?_).append (singleton_sublist.mpr ?_)
    · exact mem_map_of_mem (mem_map_of_mem ha)
    · rw [map_id_results_addUses]
      exact mem_append_left _ hmem

end DupCall

end KConfuzz
