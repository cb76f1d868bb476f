import KConfuzz.Exec.CallTheorems
import KConfuzz.Exec.ChecksumTheorems

/-!
# Serialized programs

What the serializer writes for the calls of a program, call by call: `Serialized done calls ks`
holds when `ks` are the skeletons of `calls` and the results of `done` got their indices before
(`serialized_of_skeletons`). The decoder counts one variable per index that is filled
(`numVars_foldl_addCall`) and makes room for those that are read (`length_vars_foldl_addCall`).
-/

namespace KConfuzz

open Lib.ExceptFold ExecDecoder List UInt64

variable {target : Target}

/-! ## Skeletons -/

variable {calls : List Call}

lemma encodeCalls_eq_fill (env : ExecEnv) (w : ExecContext)
    (hkfuzz : ∀ c ∈ calls, c.callMeta.kfuzzTest = false) :
    encodeCalls env target w calls =
      (skeletons target w calls).map fun r => (r.1.map (·.fill env), r.2) :=
  mapAccumM_map (fun c hc w => serializeCall_eq_fill env w (hkfuzz c hc)) w

/-! ## What a skeleton is like -/

/-- A blob that is passed to the call itself, where it cannot be. -/
def Arg.isBuffer : Arg → Bool
  | .data .. => true
  | .union _ _ _ option _ => option.isBuffer
  | _ => false

variable {w : ExecContext}

lemma WrittenAs.kind {arg : Arg} {written : InstrArg} (h : WrittenAs w arg written) :
    written.Known ∧ written.isScalar = !arg.isBuffer := by
  induction h with
  | union _ ih => exact ih
  | _ => exact ⟨trivial, rfl⟩

/-- The identities of the used results of a call, in the order of their indices. -/
def Call.usedIds (c : Call) : List ArgId :=
  KConfuzz.usedIds c.retNodes ++ KConfuzz.usedIds c.argNodes

/-- Where the used results of a call that are no return value are, and their sizes. -/
def Call.usedPlaces (target : Target) (c : Call) : List (UInt64 × UInt64) :=
  ((c.argNodes.filterMap Arg.result?).filter (·.isUsed)).map fun r =>
    (c.argAddr target r.id, r.typ.typeSize)

/-- `k` is the skeleton of `c` when the results of `done` have their indices. -/
structure SkeletonOf (target : Target) (done : List ArgId) (c : Call) (k : CallSkeleton) :
    Prop where
  sums : calcChecksumsCall c = .ok k.sums
  addr : ∀ id, k.sums.Reads id → k.addr id = c.argAddr target id
  id : k.id = UInt64.ofNat c.callMeta.id
  copyin_known : ∀ i ∈ k.copyin, i.arg.Known
  args_known : ∀ arg ∈ k.args, arg.Known
  args_scalar : (∀ arg ∈ k.args, arg.isScalar) ↔ ∀ arg ∈ c.args, ¬ arg.isBuffer
  resultIdxs : k.copyin.filterMap (·.arg.resultIdx?) ++ k.args.filterMap InstrArg.resultIdx? =
    writtenIdxs done (refs c.writtenResults)
  copyoutIdx : k.copyoutIdx =
    if usedIds c.retNodes = [] then execNoCopyout else UInt64.ofNat done.length
  copyout : k.copyout.map (·.idx) = (List.range' (done ++ usedIds c.retNodes).length
    (usedIds c.argNodes).length).map UInt64.ofNat
  places : k.copyout.map (fun i => (i.addr, i.size)) = c.usedPlaces target

variable {w' : ExecContext} {c : Call}

lemma writeCopyin_known {sums : Checksums} {out : List CopyinInstr}
    (h : writeCopyin target sums w c = .ok (out, w')) :
    ∀ i ∈ out, i.arg.Known := by
  obtain ⟨-, hout⟩ :=
    emitAll_copyinArg_rule (I := fun _ => True) (fun _ _ _ _ _ => trivial) trivial h
  intro i hi
  obtain ⟨visit, -, ⟨w, -, hwritten⟩, -⟩ := exists_mem_of_forall₂ hout hi
  exact (writtenAs_of_writeArg hwritten).kind.1

lemma mapM_writeArg_kind {args : List Arg} {written : List InstrArg}
    (h : args.mapM (writeArg target w) = .ok written) :
    (∀ arg ∈ written, arg.Known) ∧
      ((∀ arg ∈ written, arg.isScalar) ↔ ∀ arg ∈ args, ¬ arg.isBuffer) := by
  have hkind := fun arg i (h : writeArg target w arg = .ok i) => (writtenAs_of_writeArg h).kind
  refine ⟨forall_mem_of_mapM (fun arg _ i h => (hkind arg i h).1) h, ?_⟩
  exact forall_mem_iff_of_forall₂ (forall₂_of_mapM h) fun arg i h => by simp [(hkind arg i h).2]

variable {done : List ArgId} {k : CallSkeleton} {seen rets : List ArgId}

section

variable (hcalls : NewCalls seen rets done w (c :: calls)) (h : skeleton target w c = .ok (k, w'))

include hcalls

lemma args_eq_none_of_mem {id : ArgId} (hid : id ∈ c.nodes.map Arg.id) : w.args id = none := by
  obtain ⟨arg, harg, rfl⟩ := mem_map.mp hid
  cases hinfo : w.args arg.id with
  | none => rfl
  | some info => exact absurd (hcalls.context.seen arg.id info hinfo) (hcalls.head.1 arg harg)

include h

/-- The copyouts of a call read its used results at their places. -/
lemma places_of_skeleton :
    k.copyout.map (fun i => (i.addr, i.size)) = c.usedPlaces target := by
  obtain ⟨w₁, w₂, -, hcopyin, -, hret, -, hcopyout, -⟩ := skeleton_eq_ok h
  obtain ⟨hother, hflag⟩ := writeRet_argInfo hret
  have hnodup := hcalls.head.2.1
  -- the context knows where the used results are
  have hinfo : ∀ r ∈ c.argNodes.filterMap Arg.result?, r.isUsed →
      w₂.argInfo r.id = ⟨c.argAddr target r.id, 0, false⟩ := by
    intro r hr hused
    have hnode : .result r ∈ c.nodes := mem_append_left _ (mem_filterMap_result?.1 hr)
    rw [hother]
    · refine writeCopyin_argInfo hcopyin (fun visit hvisit hid => ?_)
        (args_eq_none_of_mem hcalls (mem_map_of_mem hnode))
      have hmem : visit.1 ∈ c.nodes := by
        have hfst := mem_map_of_mem (f := Prod.fst) hvisit
        rw [map_fst_foreachArg, mem_append] at hfst
        exact mem_append.mpr hfst.symm
      rw [inj_on_of_nodup_map hnodup hmem hnode hid]
      simp [willBeUsed, Arg.result?, hused]
    · intro hmem
      rw [Call.nodes, map_append, nodup_append] at hnodup
      exact hnodup.2.2 r.id (mem_map_of_mem (mem_filterMap_result?.1 hr)) r.id
        (usedIds_subset _ hmem) rfl
  rw [writeCopyout_places hcopyout, filterMap_append, filter_append,
    filter_eq_nil_iff.mpr fun r hr => ?_, nil_append, Call.usedPlaces]
  · rw [filter_congr fun r hr => ?_]
    · refine map_congr_left fun r hr => ?_
      obtain ⟨hr, hused⟩ := mem_filter.mp hr
      rw [ExecContext.addr, hinfo r hr hused]
    · cases hused : r.isUsed with
      | false => rfl
      | true => rw [hinfo r hr hused]; rfl
  · intro hboth
    obtain ⟨hused, hnot⟩ := Bool.and_eq_true_iff.mp hboth
    rw [hflag r.id (mem_map_of_mem (mem_filter.mpr ⟨hr, hused⟩))] at hnot
    cases hnot

/-- What a skeleton consists of. -/
lemma skeletonOf_of_skeleton : SkeletonOf target done c k := by
  obtain ⟨-, hidxs, hidx, hout⟩ := skeleton_spec hcalls h
  obtain ⟨w₁, w₂, hsums, hcopyin, haddr, -, hargs, -, hid, -⟩ := skeleton_eq_ok h
  obtain ⟨hknown, hscalar⟩ := mapM_writeArg_kind hargs
  refine ⟨hsums, fun id hreads => ?_, hid, writeCopyin_known hcopyin, hknown, hscalar, hidxs, hidx,
    hout, places_of_skeleton hcalls h⟩
  -- what a checksum reads is an argument of the call, which the context did not know before
  have hmem : id ∈ ((foreachArg c).map Prod.fst).map Arg.id := by
    obtain ⟨hfields, huses⟩ := calcChecksumsCall_spec hsums
    rcases hreads with ⟨field, hfield, rfl⟩ | hid
    · exact mem_map_of_mem (hfields field hfield).1
    · exact huses id hid
  have hfresh : w.args id = none := by
    refine args_eq_none_of_mem hcalls ?_
    rw [map_fst_foreachArg, map_append, mem_append] at hmem
    rw [Call.nodes, map_append, mem_append]
    exact hmem.symm
  rw [haddr, writeCopyin_addr hcopyin hreads hfresh]

end

/-! ## Runs of the serializer -/

/-- `ks` are the skeletons of `calls`, the results of `done` having their indices before. -/
inductive Serialized (target : Target) : List ArgId → List Call → List CallSkeleton → Prop
  | nil {done : List ArgId} : Serialized target done [] []
  | cons {done : List ArgId} {c : Call} {k : CallSkeleton} {calls : List Call}
      {ks : List CallSkeleton} (head : SkeletonOf target done c k)
      (tail : Serialized target (done ++ c.usedIds) calls ks) :
      Serialized target done (c :: calls) (k :: ks)

variable {ks : List CallSkeleton}

/-- The skeletons of all calls of a program. -/
lemma serialized_of_skeletons (hcalls : NewCalls seen rets done w calls)
    (h : skeletons target w calls = .ok (ks, w')) :
    Serialized target done calls ks ∧
      w'.copyoutSeq = (done ++ calls.flatMap Call.usedIds).length := by
  induction calls generalizing seen rets done w ks with
  | nil =>
    cases h
    exact ⟨.nil, by simp [hcalls.context.seq]⟩
  | cons c calls ih =>
    obtain ⟨k, w₁, rest, hfirst, hrest, rfl⟩ := mapAccumM_cons_eq_ok_iff.1 h
    obtain ⟨hw₁, -⟩ := skeleton_spec hcalls hfirst
    have hused : c.usedIds ⊆ c.nodes.map Arg.id := by
      intro id hid
      rw [Call.nodes, map_append, mem_append]
      rcases mem_append.mp hid with hid | hid
      · exact .inr (usedIds_subset _ hid)
      · exact .inl (usedIds_subset _ hid)
    rw [append_assoc] at hw₁
    have hgrow : ∀ {l more : List ArgId}, l ⊆ seen → more ⊆ c.usedIds →
        l ++ more ⊆ seen ++ c.nodes.map Arg.id := by
      intro l more hl hmore id hid
      rw [mem_append] at hid ⊢
      rcases hid with hid | hid
      · exact .inl (hl hid)
      · exact .inr (hused (hmore hid))
    obtain ⟨htail, hseq⟩ := ih (hcalls.next hw₁ (hgrow hcalls.rets_subset (subset_append_left _ _))
      (hgrow hcalls.done_subset (Subset.refl _))) hrest
    refine ⟨.cons (skeletonOf_of_skeleton hcalls hfirst) htail, ?_⟩
    rw [hseq, flatMap_cons, append_assoc]
    rfl

/-! ## The number of variables -/

/-- The indices that a written call reads. -/
def EncodedCall.readIdxs (e : EncodedCall) : List UInt64 := e.argList.filterMap InstrArg.resultIdx?

/-- The indices that a written call fills: the one of its return value and those of its
copyouts. -/
def EncodedCall.producedIdxs (e : EncodedCall) : List UInt64 :=
  (if e.copyoutIdx = execNoCopyout then [] else [e.copyoutIdx]) ++ e.copyout.map (·.idx)

lemma foldl_max_range' {m j : ℕ} (hmax : m + j ≤ execMaxCommands) {n : UInt64} (hn : n.toNat = m) :
    (((List.range' m j).map ofNat).foldl (fun n i => max n (i + 1)) n).toNat = m + j := by
  induction j generalizing m n with
  | zero => simpa using hn
  | succ j ih =>
    have hsmall : m + (j + 1) ≤ 1000 := hmax
    have hidx : (UInt64.ofNat m + 1).toNat = m + 1 := by
      rw [UInt64.toNat_add, UInt64.toNat_ofNat', UInt64.toNat_one]
      omega
    have hle : n ≤ ofNat m + 1 := by
      rw [le_iff_toNat_le, hidx, hn]
      omega
    have hmaxeq : max n (ofNat m + 1) = ofNat m + 1 := by
      rw [show max n (ofNat m + 1) = if n ≤ ofNat m + 1 then ofNat m + 1 else n
        from rfl, if_pos hle]
    rw [range'_succ, map_cons, foldl_cons, hmaxeq, ih (by omega) hidx]
    omega

lemma length_usedIds_retNodes (c : Call) : (usedIds c.retNodes).length ≤ 1 := by
  have hle : (usedIds c.retNodes).length ≤ c.retNodes.length := by
    unfold usedIds
    rw [length_map]
    exact (length_filter_le _ _).trans (length_filterMap_le _ _)
  have hone : c.retNodes.length ≤ 1 := by
    unfold Call.retNodes
    cases c.ret <;> simp
  omega

/-- A call fills the next free indices, the one of its return value first. -/
lemma SkeletonOf.producedIdxs (h : SkeletonOf target done c k) (env : ExecEnv)
    (hmax : (done ++ c.usedIds).length ≤ execMaxCommands) :
    (k.fill env).producedIdxs = (List.range' done.length c.usedIds.length).map UInt64.ofNat := by
  have hsmall : done.length ≤ 1000 := by
    rw [length_append] at hmax
    exact le_trans (by omega) hmax
  have hne : ofNat done.length ≠ execNoCopyout := by
    intro heq
    have hval := congrArg toNat heq
    rw [toNat_ofNat', show execNoCopyout.toNat = 18446744073709551615 from rfl] at hval
    omega
  have hone := length_usedIds_retNodes c
  show (if k.copyoutIdx = execNoCopyout then [] else [k.copyoutIdx]) ++ k.copyout.map (·.idx) = _
  rw [h.copyout, h.copyoutIdx, Call.usedIds, length_append, length_append, ← range'_append_1,
    map_append]
  by_cases hnil : usedIds c.retNodes = []
  · rw [if_pos hnil, if_pos rfl, hnil]
    rfl
  · have hlen : (usedIds c.retNodes).length = 1 := by
      have := length_pos_of_ne_nil hnil
      omega
    rw [if_neg hnil, if_neg hne, hlen]
    rfl

/-- The decoder counts the indices that a call fills. -/
lemma countVars_decode (n : UInt64) (e : EncodedCall) :
    ExecDecoder.countVars n (e.decode target) =
      e.producedIdxs.foldl (fun n i => max n (i + 1)) n := by
  have hret : (if e.copyoutIdx ≠ execNoCopyout ∧ n < e.copyoutIdx + 1 then e.copyoutIdx + 1
      else n) = (if e.copyoutIdx = execNoCopyout then [] else [e.copyoutIdx]).foldl
        (fun n i => max n (i + 1)) n := by
    by_cases hno : e.copyoutIdx = execNoCopyout
    · simp [hno]
    · rw [if_neg hno]
      show _ = if n ≤ e.copyoutIdx + 1 then e.copyoutIdx + 1 else n
      have hlt : n < e.copyoutIdx + 1 ↔ n ≤ e.copyoutIdx + 1 ∧ n ≠ e.copyoutIdx + 1 := by
        simp only [UInt64.lt_iff_toNat_lt, UInt64.le_iff_toNat_le, ne_eq, ← UInt64.toNat_inj]
        omega
      split_ifs <;> simp_all
  rw [EncodedCall.producedIdxs, foldl_append, ← hret, foldl_map]
  exact foldl_map

/-- The variables that the decoder counts: one more than the largest index that is filled. -/
lemma numVars_foldl_addCall (es : List EncodedCall) (dec : ExecDecoder) :
    (es.foldl (addCall target) dec).numVars =
      (es.flatMap EncodedCall.producedIdxs).foldl (fun n i => max n (i + 1)) dec.numVars := by
  induction es generalizing dec with
  | nil => rfl
  | cons e es ih =>
    rw [foldl_cons, ih, flatMap_cons, foldl_append, ← countVars_decode]
    rfl

/-- Indices are filled in order, without gaps. -/
lemma Serialized.producedIdxs (h : Serialized target done calls ks) (env : ExecEnv)
    (hmax : (done ++ calls.flatMap Call.usedIds).length ≤ execMaxCommands) :
    (ks.map (·.fill env)).flatMap EncodedCall.producedIdxs =
      (List.range' done.length (calls.flatMap Call.usedIds).length).map UInt64.ofNat := by
  induction h with
  | nil => rfl
  | cons head tail ih =>
    rename_i done c k calls ks
    rw [flatMap_cons, ← append_assoc] at hmax
    have hhead : (done ++ c.usedIds).length ≤ execMaxCommands := by
      rw [length_append] at hmax
      omega
    rw [map_cons, flatMap_cons, ih hmax, head.producedIdxs env hhead, flatMap_cons, length_append,
      length_append, ← map_append, range'_append_1]

/-! ## The variables that are read -/

/-- The indices that are written for the references of the calls. -/
def refIdxs : List ArgId → List Call → List ℕ
  | _, [] => []
  | done, c :: calls =>
    (refs c.writtenResults).map (copyoutIdx done) ++ refIdxs (done ++ c.usedIds) calls

lemma length_setVar (vars : List UInt64) (arg : InstrArg) :
    (setVar vars (arg.decode target)).length =
      arg.resultIdx?.elim vars.length fun i => max vars.length (i.toNat + 1) := by
  cases arg with
  | result info idx opDiv opAdd default =>
    simp only [InstrArg.decode, setVar, length_set, length_append, length_replicate,
      InstrArg.resultIdx?, Option.elim]
    omega
  | _ => rfl

lemma length_foldl_setVar (vars : List UInt64) (args : List InstrArg) :
    ((args.map (InstrArg.decode target)).foldl setVar vars).length =
      (args.filterMap InstrArg.resultIdx?).foldl (fun n i => max n (i.toNat + 1)) vars.length := by
  induction args generalizing vars with
  | nil => rfl
  | cons arg args ih =>
    rw [map_cons, foldl_cons, ih, length_setVar, filterMap_cons]
    cases arg.resultIdx? <;> rfl

lemma foldl_max_le {l : List ℕ} {n : ℕ} (hl : ∀ i ∈ l, i + 1 ≤ n) {m : ℕ} (hm : m ≤ n) :
    l.foldl (fun n i => max n (i + 1)) m ≤ n :=
  foldlRecOn (motive := fun m => m ≤ n) l _ hm fun _ hm i hi => max_le hm (hl i hi)

lemma copyoutIdx_le (done : List ArgId) (id : ArgId) : copyoutIdx done id ≤ done.length := by
  unfold copyoutIdx
  split
  · exact idxOf_le_length
  · omega

lemma filterMap_writeChecksums {β : Type} {g : InstrArg → Option β}
    (hg : ∀ size kind chunks, g (.csum size kind chunks) = none) (env : ExecEnv)
    (sums : Checksums) (addr : ArgId → UInt64) :
    (writeChecksums env sums addr).filterMap (g ·.arg) = [] := by
  rw [filterMap_eq_nil_iff]
  exact forall_mem_map.mpr fun field _ => hg ..

lemma SkeletonOf.readIdxs (h : SkeletonOf target done c k) (env : ExecEnv) :
    (k.fill env).readIdxs = writtenIdxs done (refs c.writtenResults) := by
  rw [← h.resultIdxs]
  simp only [EncodedCall.readIdxs, EncodedCall.argList, CallSkeleton.fill, filterMap_append,
    filterMap_map, map_append]
  have hsums := filterMap_writeChecksums (g := InstrArg.resultIdx?) (fun _ _ _ => rfl) env k.sums
    k.addr
  simp only [Function.comp_def, hsums, append_nil]

/-- The decoder makes room for every index that is read. -/
lemma length_vars_foldl_addCall (es : List EncodedCall) (dec : ExecDecoder) :
    (es.foldl (addCall target) dec).vars.length =
      (es.flatMap EncodedCall.readIdxs).foldl (fun n i => max n (i.toNat + 1)) dec.vars.length := by
  induction es generalizing dec with
  | nil => rfl
  | cons e es ih =>
    rw [foldl_cons, ih, flatMap_cons, foldl_append, EncodedCall.readIdxs, ← length_foldl_setVar]
    rfl

lemma Serialized.readIdxs (h : Serialized target done calls ks) (env : ExecEnv) :
    (ks.map (·.fill env)).flatMap EncodedCall.readIdxs =
      (refIdxs done calls).map UInt64.ofNat := by
  induction h with
  | nil => rfl
  | cons head tail ih =>
    rw [map_cons, flatMap_cons, ih, head.readIdxs env, refIdxs, map_append, writtenIdxs, map_map]
    rfl

/-- The decoder finds as many variables as there are indices exactly when the last index is
read. -/
lemma wordLength_vars_eq_iff_of_idxs {es : List EncodedCall} {n : ℕ} (hmax : n ≤ execMaxCommands)
    (hproduced : es.flatMap EncodedCall.producedIdxs = (List.range' 0 n).map UInt64.ofNat)
    {reads : List ℕ} (hreads : es.flatMap EncodedCall.readIdxs = reads.map UInt64.ofNat)
    (hle : ∀ i ∈ reads, i ≤ n) :
    wordLength (es.foldl (addCall target) .init).vars = (es.foldl (addCall target) .init).numVars ↔
      reads.foldl (fun n i => max n (i + 1)) 0 = n := by
  have hbound : n ≤ 1000 := hmax
  have hnum : (es.foldl (addCall target) .init).numVars.toNat = n := by
    rw [numVars_foldl_addCall, hproduced]
    exact (@foldl_max_range' 0 n (by omega) _ rfl).trans (Nat.zero_add n)
  have hvars : (es.foldl (addCall target) .init).vars.length =
      reads.foldl (fun n i => max n (i + 1)) 0 := by
    rw [length_vars_foldl_addCall, hreads, foldl_map]
    refine foldl_ext _ _ _ fun m i hi => ?_
    have := hle i hi
    rw [toNat_ofNat', Nat.mod_eq_of_lt (by omega)]
  have hlt : reads.foldl (fun n i => max n (i + 1)) 0 < 2 ^ 64 :=
    (foldl_max_le (fun i hi => Nat.succ_le_succ (hle i hi)) (Nat.zero_le _)).trans_lt (by omega)
  rw [← UInt64.toNat_inj, hnum, toNat_wordLength (hvars ▸ hlt), hvars]

end KConfuzz
