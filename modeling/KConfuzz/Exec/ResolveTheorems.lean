import KConfuzz.Exec.IndexTheorems
import KConfuzz.Exec.RoundTripTheorems

/-!
# What the written indices stand for

The executor keeps one table of results: the return value or a copyout of a call fills an entry,
and a result argument of a later call reads one. `References` says that the table works: entries
are numbered from zero without gaps, and what a result argument reads was filled, by an earlier
call, with the result that the argument refers to.

`serializeCall_indexed` follows the indices through one call and `indexed_of_encodeCalls` through
a program. Whether a reference is written with the right index depends on the place of the result
alone (`references_iff`).
-/

namespace KConfuzz

open Lib.ExceptFold List Call EncodedCall

/-! ## Indices of a call -/

/-- The results whose values are written for a call. Of a KFuzzTest call only the name of the test
is copied to memory as it is. -/
def Call.serializedResults (c : Call) : List ResultArg :=
  if c.callMeta.kfuzzTest then
    (foreachArg { c with args := c.args.take 1, ret := none }).filterMap copiedResult ++
      c.args.filterMap Arg.passedResult
  else c.writtenResults

/-- The results of a call that get an index. -/
def Call.indexedResults (c : Call) : List ResultArg :=
  if c.callMeta.kfuzzTest then [] else c.usedResults

/-- What calls fill the table with: results and their indices. -/
def assigned (calls : List Call) (es : List EncodedCall) : List (ArgId × UInt64) :=
  (calls.zip es).flatMap fun x => (x.1.indexedResults.map (·.id)).zip x.2.producedIdxs

/-- The copyouts that are written for a call. Nothing is copied out of a KFuzzTest call. -/
def Call.copyoutPlaces (target : Target) (c : Call) : List (UInt64 × UInt64) :=
  if c.callMeta.kfuzzTest then [] else c.usedPlaces target

/-- The written calls `es` fill and read the table as the references in `calls` say. -/
structure References (target : Target) (calls : List Call) (es : List EncodedCall) : Prop where
  /-- A call fills one entry for each of its results that are used. -/
  produced : List.Forall₂ (fun c e => c.indexedResults.length = e.producedIdxs.length) calls es
  /-- What is not a return value is copied from where the result is, and has its size. -/
  places : List.Forall₂ (fun c e => e.copyout.map (fun i => (i.addr, i.size)) =
    c.copyoutPlaces target) calls es
  /-- Entries are filled in order, without gaps. -/
  indices : (es.flatMap EncodedCall.producedIdxs).map UInt64.toNat =
    List.range (calls.flatMap Call.indexedResults).length
  /-- What a call reads was filled by an earlier call, with the result that is referred to. -/
  resolved : ∀ pre c post preEs e postEs, calls = pre ++ c :: post → es = preEs ++ e :: postEs →
    pre.length = preEs.length →
    List.Forall₂ (fun id idx => (id, idx) ∈ assigned pre preEs) (refs c.serializedResults)
      e.readIdxs

/-- No call needs a value of one of its own results or of a KFuzzTest call. -/
def Prog.ReadsEarlier (p : Prog) : Prop :=
  ∀ c ∈ p.calls, ∀ id ∈ refs c.serializedResults,
    id ∉ c.nodes.map Arg.id ∧
      ∀ c' ∈ p.calls, c'.callMeta.kfuzzTest → id ∉ c'.nodes.map Arg.id

/-! ## One call -/

def Call.indexedIds (c : Call) : List ArgId := c.indexedResults.map (·.id)

lemma indexedIds_subset (c : Call) : c.indexedIds ⊆ c.nodes.map Arg.id := by
  refine forall_mem_map.mpr fun r hr => ?_
  unfold indexedResults at hr
  split_ifs at hr
  · cases hr
  · exact mem_map.mpr ⟨_, (mem_usedResults.1 hr).1, rfl⟩

lemma indexedIds_of_not_kfuzz {c : Call} (h : c.callMeta.kfuzzTest = false) :
    c.indexedIds = usedIds c.retNodes ++ usedIds c.argNodes := by
  rw [indexedIds, indexedResults, if_neg (by simp [h]), map_id_usedResults]
  rfl

/-- What is left of a KFuzzTest call for `writeCopyin`. -/
lemma mem_nodes_of_take {c : Call} {arg : Arg}
    (h : arg ∈ ({ c with args := c.args.take 1, ret := none } : Call).retNodes ++
      ({ c with args := c.args.take 1, ret := none } : Call).argNodes) : arg ∈ c.argNodes := by
  have harg : arg ∈ (c.args.take 1).flatMap Arg.subtree := by
    simpa only [retNodes, argNodes, Option.map_none, Option.toList_none, nil_append] using h
  obtain ⟨top, htop, hmem⟩ := mem_flatMap.mp harg
  exact mem_flatMap.mpr ⟨top, mem_of_mem_take htop, hmem⟩

section Call

variable {target : Target} {env : ExecEnv} {seen rets done : List ArgId} {w w' : ExecContext}
  {calls : List Call} {c : Call} {e : EncodedCall}

/-- A KFuzzTest call reads indices and fills none. -/
lemma serializeKFuzzTestCall_indexed {sums : Checksums} (hw : ContextInv seen rets done w)
    (hdone : done ⊆ seen) (hnew : ∀ arg ∈ c.nodes, arg.id ∉ seen)
    (h : serializeKFuzzTestCall env target sums w c = .ok (e, w')) :
    ContextInv (seen ++ c.nodes.map Arg.id) rets done w' ∧
      e.readIdxs = writtenIdxs done (refs
        ((foreachArg { c with args := c.args.take 1, ret := none }).filterMap copiedResult ++
          c.args.filterMap Arg.passedResult)) ∧
      e.producedIdxs = [] ∧ e.copyout = [] := by
  obtain ⟨runID, copyin, blob, args, args', -, hcopyin, hblob, hargs, rfl⟩ :=
    serializeKFuzzTestCall_eq_ok h
  have hnode : ∀ arg ∈ ({ c with args := c.args.take 1, ret := none } : Call).retNodes ++
      ({ c with args := c.args.take 1, ret := none } : Call).argNodes, arg ∈ c.nodes :=
    fun arg harg => mem_append_left _ (mem_nodes_of_take harg)
  obtain ⟨hinv, hread⟩ := writeCopyin_spec (hw.mono (subset_append_left _ _))
    (fun arg harg => mem_append_right _ (mem_map_of_mem (hnode arg harg)))
    (fun arg harg hin => hnew arg (hnode arg harg) (hdone hin)) hcopyin
  obtain ⟨hdata, hpassed, -⟩ := kFuzzTestBlob_eq_ok hblob
  have hargsRead := mapM_writeArg_spec hinv.indexed hargs
  rw [hpassed] at hargsRead
  refine ⟨hinv, ?_, rfl, rfl⟩
  have hnone := filterMap_of_data (g := InstrArg.resultIdx?) (fun _ => rfl) hdata
  simp only [readIdxs, argList, map_append, filterMap_append,
    filterMap_map, Function.comp_def, hread, hnone, hargsRead, append_nil, refs, writtenIdxs]

/-- A call reads the indices known before it and fills the next ones. -/
lemma serializeCall_indexed (hcalls : NewCalls seen rets done w (c :: calls))
    (h : serializeCall env target w c = .ok (e, w')) (hmax : w'.copyoutSeq ≤ execMaxCommands) :
    (∃ rets' ⊆ seen ++ c.nodes.map Arg.id,
      ContextInv (seen ++ c.nodes.map Arg.id) rets' (done ++ c.indexedIds) w') ∧
      e.readIdxs = writtenIdxs done (refs c.serializedResults) ∧
      e.producedIdxs = (List.range' done.length c.indexedIds.length).map UInt64.ofNat ∧
      e.copyout.map (fun i => (i.addr, i.size)) = c.copyoutPlaces target := by
  cases hkfuzz : c.callMeta.kfuzzTest with
  | true =>
    obtain ⟨sums, -, h⟩ := bind_eq_ok_iff.1 h
    rw [if_pos hkfuzz] at h
    obtain ⟨hinv, hread, hproduced, hcopyout⟩ := serializeKFuzzTestCall_indexed hcalls.context
      hcalls.done_subset hcalls.head.1 h
    have hids : c.indexedIds = [] := by
      rw [indexedIds, indexedResults, if_pos hkfuzz, map_nil]
    rw [hids, append_nil]
    refine ⟨⟨rets, fun id hid => mem_append_left _ (hcalls.rets_subset hid), hinv⟩, ?_, hproduced,
      ?_⟩
    · rw [hread, serializedResults, if_pos hkfuzz]
    · rw [hcopyout, copyoutPlaces, if_pos hkfuzz, map_nil]
  | false =>
    obtain ⟨k, hk, rfl⟩ := serializeCall_eq_ok hkfuzz h
    obtain ⟨hinv, -⟩ := skeleton_spec hcalls hk
    rw [append_assoc] at hinv
    have hskeleton := skeletonOf_of_skeleton hcalls hk
    have hids : c.indexedIds = c.usedIds := indexedIds_of_not_kfuzz hkfuzz
    rw [hids]
    refine ⟨⟨_, ?_, hinv⟩, ?_, ?_, ?_⟩
    · intro id hid
      rw [mem_append] at hid ⊢
      rcases hid with hid | hid
      · exact .inl (hcalls.rets_subset hid)
      · exact .inr (indexedIds_subset c (hids ▸ mem_append_left _ hid))
    · rw [serializedResults, if_neg (by simp [hkfuzz]), hskeleton.readIdxs]
    · exact hskeleton.producedIdxs env (hinv.seq ▸ hmax)
    · rw [copyoutPlaces, if_neg (by simp [hkfuzz])]
      exact hskeleton.places

end Call

/-! ## Programs -/

/-- The indices that are written for the references of the calls. -/
def readIndices : List ArgId → List Call → List ℕ
  | _, [] => []
  | done, c :: calls =>
    (refs c.serializedResults).map (copyoutIdx done) ++ readIndices (done ++ c.indexedIds) calls

/-- The largest index that is written for a reference is the last one that is given out. -/
def Prog.LastIndexRead (p : Prog) : Prop :=
  (readIndices [] p.calls).foldl (fun n i => max n (i + 1)) 0 =
    (p.calls.flatMap Call.indexedResults).length

instance (p : Prog) : Decidable p.LastIndexRead := inferInstanceAs (Decidable (_ = _))

lemma readIndices_le {done : List ArgId} {calls : List Call} :
    ∀ i ∈ readIndices done calls, i ≤ (done ++ calls.flatMap Call.indexedIds).length := by
  induction calls generalizing done with
  | nil => simp [readIndices]
  | cons c calls ih =>
    rw [readIndices, forall_mem_append, forall_mem_map, flatMap_cons, ← append_assoc]
    refine ⟨fun id _ => (copyoutIdx_le done id).trans ?_, ih⟩
    simp only [length_append]
    omega

lemma length_indexedIds (calls : List Call) :
    (calls.flatMap Call.indexedIds).length = (calls.flatMap Call.indexedResults).length := by
  unfold Call.indexedIds
  rw [← map_flatMap, length_map]

/-- Without KFuzzTest calls, the last index is read when the last result is. -/
lemma lastIndexRead_iff {p : Prog} (hvalid : ValidOrder (p.calls.flatMap nodes))
    (hkfuzz : ∀ c ∈ p.calls, c.callMeta.kfuzzTest = false) :
    p.LastIndexRead ↔ p.LastResultRead := by
  have hreads : ∀ {done : List ArgId} {calls : List Call},
      (∀ c ∈ calls, c.callMeta.kfuzzTest = false) →
        readIndices done calls = refIdxs done calls := by
    intro done calls
    induction calls generalizing done with
    | nil => intro; rfl
    | cons c calls ih =>
      intro hkfuzz
      rw [forall_mem_cons] at hkfuzz
      rw [readIndices, refIdxs, ih hkfuzz.2, serializedResults, if_neg (by simp [hkfuzz.1]),
        indexedIds_of_not_kfuzz hkfuzz.1]
      rfl
  have hids : p.calls.flatMap indexedIds = p.calls.flatMap Call.usedIds :=
    flatMap_congr fun c hc => indexedIds_of_not_kfuzz (hkfuzz c hc)
  rw [← foldl_refIdxs_eq_iff hvalid, ← hids, length_indexedIds, ← hreads hkfuzz]
  rfl

/-- `es` are written for `calls`, the results of `done` having their indices before. -/
inductive Indexed (target : Target) : List ArgId → List Call → List EncodedCall → Prop
  | nil {done : List ArgId} : Indexed target done [] []
  | cons {done : List ArgId} {c : Call} {e : EncodedCall} {calls : List Call}
      {es : List EncodedCall}
      (reads : e.readIdxs = writtenIdxs done (refs c.serializedResults))
      (produced : e.producedIdxs =
        (List.range' done.length c.indexedIds.length).map UInt64.ofNat)
      (places : e.copyout.map (fun i => (i.addr, i.size)) = c.copyoutPlaces target)
      (tail : Indexed target (done ++ c.indexedIds) calls es) :
      Indexed target done (c :: calls) (e :: es)

/-- The indices of a whole program, call by call. -/
lemma indexed_of_encodeCalls {target : Target} {env : ExecEnv} {seen rets done : List ArgId}
    {w w' : ExecContext} {calls : List Call} {es : List EncodedCall} (hbounded : w.Bounded)
    (hmeta : ∀ c ∈ calls, c.callMeta ∈ target.syscalls) (hcalls : NewCalls seen rets done w calls)
    (h : encodeCalls env target w calls = .ok (es, w')) (hmax : w'.copyoutSeq ≤ execMaxCommands) :
    Indexed target done calls es ∧
      w'.copyoutSeq = done.length + (calls.flatMap indexedIds).length := by
  induction calls generalizing seen rets done w es with
  | nil =>
    cases h
    exact ⟨.nil, hcalls.context.seq⟩
  | cons c calls ih =>
    obtain ⟨e, w₁, rest, hfirst, hrest, rfl⟩ := mapAccumM_cons_eq_ok_iff.1 h
    rw [forall_mem_cons] at hmeta
    obtain ⟨hbounded₁, -⟩ := serializeCall_bounded hbounded hmeta.1 hfirst
    have hseq := (encodeCalls_bounded hmeta.2 hbounded₁ hrest).1
    obtain ⟨⟨rets₁, hrets₁, hw₁⟩, hread, hproduced, hplaces⟩ :=
      serializeCall_indexed hcalls hfirst (hseq.trans hmax)
    have hdone₁ : done ++ c.indexedIds ⊆ seen ++ c.nodes.map Arg.id := by
      intro id hid
      rw [mem_append] at hid ⊢
      exact hid.imp (fun h => hcalls.done_subset h) (fun h => indexedIds_subset c h)
    obtain ⟨htail, hlen⟩ := ih hbounded₁ hmeta.2 (hcalls.next hw₁ hrets₁ hdone₁) hrest
    refine ⟨.cons hread hproduced hplaces htail, ?_⟩
    rw [hlen, flatMap_cons, length_append, length_append]
    omega

namespace Indexed

variable {target : Target} {done : List ArgId} {calls : List Call} {es : List EncodedCall}

lemma producedIdxs_eq (h : Indexed target done calls es) :
    es.flatMap producedIdxs =
      (List.range' done.length (calls.flatMap indexedIds).length).map UInt64.ofNat := by
  induction h with
  | nil => rfl
  | cons reads produced places tail ih =>
    rw [flatMap_cons, flatMap_cons, produced, ih, ← map_append,
      length_append, length_append, range'_append_1]

lemma forall₂_length (h : Indexed target done calls es) :
    List.Forall₂ (fun c e => c.indexedResults.length = e.producedIdxs.length) calls es := by
  induction h with
  | nil => exact .nil
  | cons reads produced places tail ih =>
    refine .cons ?_ ih
    rw [produced, length_map, length_range', indexedIds, length_map]

lemma forall₂_places (h : Indexed target done calls es) :
    List.Forall₂ (fun c e => e.copyout.map (fun i => (i.addr, i.size)) = c.copyoutPlaces target)
      calls es := by
  induction h with
  | nil => exact .nil
  | cons reads produced places tail ih => exact .cons places ih

lemma readIdxs_eq (h : Indexed target done calls es) :
    es.flatMap readIdxs = (readIndices done calls).map UInt64.ofNat := by
  induction h with
  | nil => rfl
  | cons reads produced places tail ih =>
    rw [flatMap_cons, readIndices, map_append, reads, ih, writtenIdxs, map_map]
    rfl

lemma assigned_eq (h : Indexed target done calls es) :
    assigned calls es = (calls.flatMap indexedIds).zip
      ((List.range' done.length (calls.flatMap indexedIds).length).map UInt64.ofNat) := by
  induction h with
  | nil => rfl
  | @cons done c e calls es reads produced places tail ih =>
    unfold assigned at ih ⊢
    rw [zip_cons_cons, flatMap_cons, ih, produced, flatMap_cons,
      length_append, length_append, ← range'_append_1, map_append, zip_append (by simp)]
    rfl

/-- The indices of a program, cut at a call. -/
lemma split {pre : List Call} {c : Call} {post : List Call} {preEs : List EncodedCall}
    {e : EncodedCall} {postEs : List EncodedCall}
    (h : Indexed target done (pre ++ c :: post) (preEs ++ e :: postEs))
    (hlen : pre.length = preEs.length) :
    Indexed target done pre preEs ∧
      Indexed target (done ++ pre.flatMap indexedIds) (c :: post) (e :: postEs) := by
  induction pre generalizing done preEs with
  | nil =>
    obtain rfl : preEs = [] := length_eq_zero_iff.mp hlen.symm
    exact ⟨.nil, by simpa using h⟩
  | cons c' pre ih =>
    cases preEs with
    | nil => cases hlen
    | cons e' preEs =>
      cases h with
      | cons reads produced places tail =>
        obtain ⟨hfirst, hrest⟩ := ih tail (Nat.succ.inj hlen)
        refine ⟨.cons reads produced places hfirst, ?_⟩
        rwa [flatMap_cons, ← append_assoc]

end Indexed

lemma copyoutIdx_mem_zip_range {done : List ArgId} {id : ArgId} (h : id ∈ done) :
    (id, UInt64.ofNat (copyoutIdx done id)) ∈
      done.zip ((List.range' 0 done.length).map UInt64.ofNat) := by
  have hlt := idxOf_lt_length_iff.mpr h
  rw [copyoutIdx, if_pos h, mem_iff_getElem]
  refine ⟨done.idxOf id, by simpa using hlt, ?_⟩
  simp [getElem_zip]

/-- A call reads what is meant exactly when the results it refers to have their indices. -/
lemma forall₂_writtenIdxs_iff {done ids : List ArgId} : List.Forall₂ (fun id idx =>
      (id, idx) ∈ done.zip ((List.range' 0 done.length).map UInt64.ofNat)) ids
        (writtenIdxs done ids) ↔ ids ⊆ done := by
  rw [writtenIdxs, forall₂_map_right_iff, forall₂_same]
  constructor
  · intro h id hid
    exact (of_mem_zip (h id hid)).1
  · intro h id hid
    exact copyoutIdx_mem_zip_range (h hid)

/-- References work if each is to a result of an earlier call. -/
lemma Indexed.references_iff_subset {target : Target} {calls : List Call} {es : List EncodedCall}
    (h : Indexed target [] calls es) (hmax : (calls.flatMap indexedIds).length ≤ execMaxCommands) :
    References target calls es ↔ ∀ pre c post, calls = pre ++ c :: post →
      refs c.serializedResults ⊆ pre.flatMap indexedIds := by
  -- the reads of one call, at its place
  have hread : ∀ {pre c post preEs e postEs}, calls = pre ++ c :: post →
      es = preEs ++ e :: postEs → pre.length = preEs.length →
      (Forall₂ (fun id idx => (id, idx) ∈ assigned pre preEs) (refs c.serializedResults)
        e.readIdxs ↔ refs c.serializedResults ⊆ pre.flatMap indexedIds) := by
    intro pre c post preEs e postEs hcalls hes hlen
    rw [hcalls, hes] at h
    obtain ⟨hpre, hpost⟩ := h.split hlen
    cases hpost with
    | cons reads produced places tail =>
      rw [reads, hpre.assigned_eq, nil_append]
      exact forall₂_writtenIdxs_iff
  constructor
  · intro href pre c post hcalls
    have hlen := href.produced.length_eq
    obtain ⟨preEs, e, postEs, hes, hpre⟩ : ∃ preEs e postEs, es = preEs ++ e :: postEs ∧
        preEs.length = pre.length := by
      have hlt : pre.length < es.length := by
        rw [← hlen, hcalls]
        simp
      exact exists_split hlt
    exact (hread hcalls hes hpre.symm).mp
      (href.resolved pre c post preEs e postEs hcalls hes hpre.symm)
  · intro hrefs
    refine ⟨h.forall₂_length, h.forall₂_places, ?_, ?_⟩
    · rw [h.producedIdxs_eq, map_map, length_nil, ← range_eq_range']
      rw [← length_indexedIds]
      refine (map_congr_left fun i hi => ?_).trans (map_id _)
      have hlt := mem_range.mp hi
      have hbound : execMaxCommands < 2 ^ 64 := by decide
      show (UInt64.ofNat i).toNat = i
      exact Nat.mod_eq_of_lt (by omega)
    · intro pre c post preEs e postEs hcalls hes hlen
      exact (hread hcalls hes hlen).mpr (hrefs pre c post hcalls)

/-! ## Valid programs -/

lemma mem_argNodes_of_serialized {c : Call} {u : ResultArg} (h : u ∈ c.serializedResults) :
    .result u ∈ c.argNodes := by
  unfold serializedResults at h
  split_ifs at h
  · rcases mem_append.mp h with h | h
    · have hname := mem_argNodes_of_written
        (c := { c with args := c.args.take 1, ret := none }) (mem_append_left _ h)
      exact mem_nodes_of_take (mem_append_right _ hname)
    · exact mem_argNodes_of_written (mem_append_right _ h)
  · exact mem_argNodes_of_written h

/-- Calls of a valid program share no arguments. -/
lemma eq_of_mem_nodes {calls : List Call} (hvalid : ValidOrder (calls.flatMap nodes))
    {c c' : Call} (hc : c ∈ calls) (hc' : c' ∈ calls) {id : ArgId} (hid : id ∈ c.nodes.map Arg.id)
    (hid' : id ∈ c'.nodes.map Arg.id) : c = c' := by
  have hnodup := hvalid.nodup
  obtain ⟨pre, post, rfl⟩ := append_of_mem hc
  have hmem : ∀ {calls : List Call}, c' ∈ calls → id ∈ (calls.flatMap nodes).map Arg.id := by
    intro calls hin
    rw [map_flatMap]
    exact mem_flatMap.mpr ⟨c', hin, hid'⟩
  rw [flatMap_append, flatMap_cons, map_append, map_append, nodup_append, nodup_append] at hnodup
  rw [mem_append, mem_cons] at hc'
  rcases hc' with hpre | rfl | hpost
  · exact absurd rfl (hnodup.2.2 id (hmem hpre) id (mem_append_left _ hid))
  · rfl
  · exact absurd rfl (hnodup.2.1.2.2 id hid id (hmem hpost))

/-- The condition in terms of the calls before. -/
lemma readsEarlier_iff {p : Prog} (hvalid : ValidOrder (p.calls.flatMap nodes)) :
    p.ReadsEarlier ↔ ∀ pre c post, p.calls = pre ++ c :: post →
      refs c.serializedResults ⊆ pre.flatMap indexedIds := by
  constructor
  · intro h pre c post hcalls id hid
    have hc : c ∈ p.calls := by simp [hcalls]
    obtain ⟨hown, hkfuzz⟩ := h c hc id hid
    obtain ⟨u, hu, hres⟩ := mem_filterMap.mp hid
    obtain ⟨r, rfl, hused, hmem⟩ := exists_target_of_mem_argNodes hvalid hcalls
      (mem_argNodes_of_serialized hu) hres
    rcases hmem with hpre | hargs
    · obtain ⟨c', hc', hnode⟩ := mem_flatMap.mp hpre
      have hplain : ¬ c'.callMeta.kfuzzTest := fun hk =>
        hkfuzz c' (by simp [hcalls, hc']) hk (mem_map_of_mem hnode)
      refine mem_flatMap.mpr ⟨c', hc', mem_map.mpr ⟨r, ?_, rfl⟩⟩
      rw [indexedResults, if_neg hplain]
      exact mem_usedResults.2 ⟨hnode, hused⟩
    · exact absurd (mem_map_of_mem (mem_append_left _ hargs)) hown
  · intro h c hc id hid
    obtain ⟨pre, post, hcalls⟩ := append_of_mem hc
    obtain ⟨c', hc', hindexed⟩ := mem_flatMap.mp (h pre c post hcalls hid)
    have hnode := indexedIds_subset c' hindexed
    have hmem : c' ∈ p.calls := by simp [hcalls, hc']
    constructor
    · -- a call before `c` has arguments of its own
      intro hown
      have hnodup := hvalid.nodup
      rw [hcalls, flatMap_append, map_append, nodup_append] at hnodup
      obtain ⟨arg, harg, harg'⟩ := mem_map.mp hnode
      refine hnodup.2.2 id (mem_map.mpr ⟨arg, ?_, harg'⟩) id ?_ rfl
      · exact mem_flatMap.mpr ⟨c', hc', harg⟩
      · rw [flatMap_cons, map_append]
        exact mem_append_left _ hown
    · intro other hother hkfuzz hin
      obtain rfl := eq_of_mem_nodes hvalid hmem hother hnode hin
      rw [indexedIds, indexedResults, if_pos hkfuzz] at hindexed
      cases hindexed

lemma interleave_nil (i : ℕ) (es : List EncodedCall) : interleave [] i es = es.flatMap instrs := by
  induction es generalizing i with
  | nil => rfl
  | cons e es ih =>
    rw [interleave, ih, flatMap_cons]
    rfl

/-- In the buffer of a valid program the references work exactly when no call needs a value of its
own results or of a KFuzzTest call. -/
theorem references_iff {p : Prog} (hvalid : p.validate = .ok ()) {env : ExecEnv}
    {buf : List UInt8} (hbuf : p.serializeForExec env = .ok buf) :
    ∃ es w, encodeCalls env p.target .init p.calls = .ok (es, w) ∧
      buf = write (wordLength p.calls) ++ encodeAll (es.flatMap EncodedCall.instrs ++ [.eof]) ∧
      (References p.target p.calls es ↔ p.ReadsEarlier) := by
  have horder := validOrder_of_validate hvalid
  obtain ⟨es, w, hencode, hmax, rfl, -⟩ := serializeForExecWithKConfuzz_eq_ok hbuf
  refine ⟨es, w, hencode,
    by rw [encodeBuffer, interleave_nil, wordLength_of_encodeCalls hencode], ?_⟩
  obtain ⟨hindexed, hseq⟩ :=
    indexed_of_encodeCalls bounded_init p.callMeta_mem (newCalls_init horder) hencode hmax
  have hlen : (p.calls.flatMap Call.indexedIds).length ≤ execMaxCommands := by
    omega
  rw [hindexed.references_iff_subset hlen, readsEarlier_iff horder]

/-! ## A call that refers to its own result

`test$r104_producer(a ptr[out, r104])` and `test$r103_producer_r104_consumer(a ptr[inout,
syz_r103_r104_u], b ptr[inout, syz_r103_r104_s])` of `sys/test/test.txt`. -/

def r103 : ResourceType :=
  { typeName := "r103", typeSize := 4, argFormat := .formatNative, desc := ⟨"r103", [0], by simp⟩ }

def r104 : ResourceType :=
  { typeName := "r104", typeSize := 4, argFormat := .formatNative, desc := ⟨"r104", [0], by simp⟩ }

def resourceArg (id : ArgId) (dir : Dir) (typ : ResourceType) (res : Option ArgId)
    (uses : List ArgId) : Arg :=
  .result { id, dir, typ, res, opDiv := 0, opAdd := 0, val := 0, uses }

def r104Producer : Syscall := { id := 0, name := "test$r104_producer" }

def r103ProducerR104Consumer : Syscall := { id := 1, name := "test$r103_producer_r104_consumer" }

/-- A pointer to an `r103`, which the call fills in, and an `r104`. -/
def ptrR103R104 (id : ArgId) (name : String) (address : UInt64) (opt0 opt1 : Arg) : Arg :=
  .pointer id .dirIn (.ptr ⟨"ptr", 8⟩) address 0 (some (.group (id + 1) .dirInOut
    (.struct { typeName := name, typeSize := 8, isVarlen := false, fields := ["opt0", "opt1"]
               alignAttr := 0, overlayField := 0 }) [opt0, opt1]))

def consumerTarget : Target :=
  { syscalls := [r104Producer, r103ProducerR104Consumer], dataOffset := 0x20000000
    specialPointers := [] }

/-- `test$r104_producer(&(0x7f0000000000)=<r0=>0x0)` -/
def producerCall (user : ArgId) : Call :=
  { callMeta := r104Producer
    args := [.pointer 0 .dirIn (.ptr ⟨"ptr", 8⟩) 0 0 (some (resourceArg 1 .dirOut r104 none [user]))]
    ret := none, props := .zero }

/-- The `r104` of the producer is read. -/
def earlierProg : Prog :=
  { target := consumerTarget
    calls := [producerCall 5,
      { callMeta := r103ProducerR104Consumer
        args := [ptrR103R104 2 "syz_r103_r104_u" 0x40 (resourceArg 4 .dirOut r103 none [])
              (resourceArg 5 .dirIn r104 (some 1) []),
            ptrR103R104 6 "syz_r103_r104_s" 0x80 (resourceArg 8 .dirOut r103 none [])
              (resourceArg 9 .dirIn r104 none [])]
        ret := none, props := .zero }]
    callMeta_mem := by decide }

/-- The same, but the first `r104` that the consumer gets is the `r103` next to it, which the call
is to fill in. -/
def ownProg : Prog :=
  { target := consumerTarget
    calls := [producerCall 9,
      { callMeta := r103ProducerR104Consumer
        args := [ptrR103R104 2 "syz_r103_r104_u" 0x40 (resourceArg 4 .dirOut r103 none [5])
              (resourceArg 5 .dirIn r104 (some 4) []),
            ptrR103R104 6 "syz_r103_r104_s" 0x80 (resourceArg 8 .dirOut r103 none [])
              (resourceArg 9 .dirIn r104 (some 1) [])]
        ret := none, props := .zero }]
    callMeta_mem := by decide }

theorem references_earlierProg :
    ∃ es w, encodeCalls visitInOrder consumerTarget .init earlierProg.calls = .ok (es, w) ∧
      References earlierProg.target earlierProg.calls es := by
  have hserialized : ∃ buf, earlierProg.serializeForExec visitInOrder = .ok buf := ⟨_, rfl⟩
  obtain ⟨buf, hbuf⟩ := hserialized
  obtain ⟨es, w, hencode, -, hiff⟩ := references_iff (by decide +kernel) hbuf
  refine ⟨es, w, hencode, hiff.mpr ?_⟩
  unfold Prog.ReadsEarlier
  decide +kernel

/-- The reference of a valid program to a result of the same call is written with index 0, which
is the one of another result. -/
theorem not_references_ownProg :
    ownProg.validate = .ok () ∧ ∃ es w,
      encodeCalls visitInOrder consumerTarget .init ownProg.calls = .ok (es, w) ∧
        (ownProg.serializeForExec visitInOrder).isOk ∧ es.map EncodedCall.readIdxs = [[], [0, 0]] ∧
        ¬ References ownProg.target ownProg.calls es := by
  refine ⟨by decide +kernel, ?_⟩
  have hrun : (encodeCalls visitInOrder consumerTarget .init ownProg.calls).toOption.map
      (fun r => (r.1.map EncodedCall.readIdxs, r.1.map EncodedCall.producedIdxs)) =
        some ([[], [0, 0]], [[0], [1]]) := by
    decide +kernel
  obtain ⟨⟨es, w⟩, hencode, hrun⟩ := Option.map_eq_some_iff.mp hrun
  obtain ⟨hread, hproduced⟩ := Prod.mk.inj hrun
  refine ⟨es, w, toOption_eq_some_iff.1 hencode, by decide +kernel, hread, fun h => ?_⟩
  match es, hread, hproduced with
  | [e₀, e₁], hread, hproduced =>
    have hresolved := h.resolved [producerCall 9] _ [] [e₀] e₁ [] rfl rfl rfl
    simp only [map_cons, map_nil, List.cons.injEq] at hread hproduced
    have hread₁ : e₁.readIdxs = [0, 0] := hread.2.1
    have hproduced₀ : e₀.producedIdxs = [0] := hproduced.1
    rw [hread₁] at hresolved
    have hassigned : assigned [producerCall 9] [e₀] = [(1, 0)] := by
      simp only [assigned, zip_cons_cons, zip_nil_right, flatMap_cons, flatMap_nil, hproduced₀]
      decide +kernel
    rw [hassigned] at hresolved
    revert hresolved
    decide +kernel

end KConfuzz
