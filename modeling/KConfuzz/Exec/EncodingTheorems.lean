import KConfuzz.Exec.Encoding
import KConfuzz.Prog.Validation

/-!
# Copyout indices

The results that are used get their copyout indices in the order in which the serializer comes
across them: `usedResults`. What a reference to a result is written as depends on when it is
written. In a later call it is the index of the result; in the call of the result itself the
index has not been given out yet, and zero is written instead (`copyoutIdx`).
`skeleton_spec` says this for one call.
-/

namespace KConfuzz

open Lib.ExceptFold List

/-! ## Results of a call -/

/-- The results a copyout index is given out for, in that order. -/
def Call.usedResults (c : Call) : List ResultArg :=
  ((c.retNodes ++ c.argNodes).filterMap Arg.result?).filter (·.isUsed)

/-- A result that is passed to the call itself. -/
def Arg.passedResult : Arg → Option ResultArg
  | .result r => some r
  | .union _ _ _ option _ => option.passedResult
  | _ => none

/-- A result that is copied to memory before the call. -/
def copiedResult (visit : Arg × ArgCtx) : Option ResultArg :=
  if visit.2.base.isSome && !skipsCopyin visit.1 then visit.1.result? else none

/-- The results whose values the executor needs for the call. -/
def Call.writtenResults (c : Call) : List ResultArg :=
  (foreachArg c).filterMap copiedResult ++ c.args.filterMap Arg.passedResult

/-- The index that a reference is written with when the results of `done` have theirs. -/
def copyoutIdx (done : List ArgId) (id : ArgId) : ℕ := if id ∈ done then done.idxOf id else 0

/-- The index in a written argument. -/
def InstrArg.resultIdx? : InstrArg → Option UInt64
  | .result _ idx _ _ _ => some idx
  | _ => none

/-! ## The context

`seen` are the identities of the arguments written so far, `rets` the ones of used return values,
and `done` the ones of the results that have an index. -/

/-- The context knows indices as they are written. -/
def ExecContext.Indexed (w : ExecContext) (done : List ArgId) : Prop :=
  ∀ id info, w.args id = some info → info.idx = copyoutIdx done id

structure ContextInv (seen rets done : List ArgId) (w : ExecContext) : Prop where
  seq : w.copyoutSeq = done.length
  indexed : w.Indexed done
  seen : ∀ id info, w.args id = some info → id ∈ seen
  ret : ∀ id info, w.args id = some info → info.ret = true → id ∈ rets

lemma copyoutIdx_of_notMem {done : List ArgId} {id : ArgId} (h : id ∉ done) :
    copyoutIdx done id = 0 := if_neg h

lemma copyoutIdx_append_of_mem {done : List ArgId} {id : ArgId} (h : id ∈ done)
    (more : List ArgId) : copyoutIdx (done ++ more) id = copyoutIdx done id := by
  rw [copyoutIdx, copyoutIdx, if_pos h, if_pos (mem_append_left _ h), idxOf_append_of_mem h]

lemma copyoutIdx_concat_of_ne {done : List ArgId} {id other : ArgId} (h : id ≠ other) :
    copyoutIdx (done ++ [other]) id = copyoutIdx done id := by
  by_cases hid : id ∈ done
  · exact copyoutIdx_append_of_mem hid _
  · rw [copyoutIdx_of_notMem hid, copyoutIdx_of_notMem (by simp [hid, h])]

lemma setArg_args (w : ExecContext) (id id' : ArgId) (info : ArgInfo) :
    (w.setArg id info).args id' = if id' = id then some info else w.args id' :=
  Function.update_apply _ _ _ _

namespace ContextInv

variable {seen rets done : List ArgId} {w : ExecContext} {id : ArgId}

section

variable (h : ContextInv seen rets done w) (hseen : id ∈ seen) {rets' : List ArgId}

include h hseen

/-- Entering an argument: `done'` and `rets'` differ from what they were at it only. -/
lemma update (info : ArgInfo) {done' : List ArgId} (hidx : info.idx = copyoutIdx done' id)
    (hret : info.ret = true → id ∈ rets') (hrets : rets ⊆ rets')
    (hdone : ∀ id', id' ≠ id → copyoutIdx done' id' = copyoutIdx done id') :
    ContextInv seen rets' done' { w.setArg id info with copyoutSeq := done'.length } := by
  have hcases : ∀ id' info', (w.setArg id info).args id' = some info' →
      (id' = id ∧ info' = info) ∨ (id' ≠ id ∧ w.args id' = some info') := by
    intro id' info' h'
    rw [setArg_args] at h'
    split at h'
    · rename_i heq
      exact .inl ⟨heq, (Option.some.inj h').symm⟩
    · rename_i hne
      exact .inr ⟨hne, h'⟩
  constructor
  · rfl
  · intro id' info' h'
    rcases hcases id' info' h' with ⟨rfl, rfl⟩ | ⟨hne, hold⟩
    · exact hidx
    · rw [h.indexed id' info' hold, hdone id' hne]
  · intro id' info' h'
    rcases hcases id' info' h' with ⟨rfl, rfl⟩ | ⟨-, hold⟩
    · exact hseen
    · exact h.seen id' info' hold
  · intro id' info' h' hret'
    rcases hcases id' info' h' with ⟨rfl, rfl⟩ | ⟨-, hold⟩
    · exact hret hret'
    · exact hrets (h.ret id' info' hold hret')

lemma setArg (hdone : id ∉ done) (addr : UInt64) :
    ContextInv seen rets done (w.setArg id { addr, idx := 0, ret := false }) := by
  have hupdate := h.update hseen { addr, idx := 0, ret := false }
    (copyoutIdx_of_notMem hdone).symm (by simp) (Subset.refl _) (fun _ _ => rfl)
  rwa [← h.seq] at hupdate

lemma assign (hdone : id ∉ done) (info : ArgInfo) (hret : info.ret = true → id ∈ rets')
    (hrets : rets ⊆ rets') :
    ContextInv seen rets' (done ++ [id])
      { w.setArg id { info with idx := w.copyoutSeq } with copyoutSeq := w.copyoutSeq + 1 } := by
  have hidx : w.copyoutSeq = copyoutIdx (done ++ [id]) id := by
    rw [copyoutIdx, if_pos (by simp), idxOf_append_of_notMem hdone, h.seq]
    simp
  have hupdate := h.update hseen { info with idx := w.copyoutSeq } hidx hret hrets
    (fun id' hne => copyoutIdx_concat_of_ne hne)
  rwa [length_append, length_singleton, ← h.seq] at hupdate

end

lemma mono (h : ContextInv seen rets done w) {seen' : List ArgId} (hseen : seen ⊆ seen') :
    ContextInv seen' rets done w :=
  ⟨h.seq, h.indexed, fun id info hinfo => hseen (h.seen id info hinfo), h.ret⟩

lemma init : ContextInv [] [] [] .init := by
  refine ⟨rfl, ?_, ?_, ?_⟩ <;>
  · intro id info hinfo
    cases hinfo

end ContextInv

/-! ## Writing arguments -/

variable {target : Target} {w : ExecContext}

/-- What an argument is written as. -/
inductive WrittenAs (w : ExecContext) : Arg → InstrArg → Prop
  | const {id dir typ val info v} : WrittenAs w (.const id dir typ val) (.const info v)
  | value {a info v} (res_eq : a.res = none) : WrittenAs w (.result a) (.const info v)
  | ref {a res copyout} (res_eq : a.res = some res) (args_eq : w.args res = some copyout) :
    WrittenAs w (.result a) (.result (a.typ.typeSize ||| a.typ.argFormat.toUInt64 <<< 8)
      (UInt64.ofNat copyout.idx) a.opDiv a.opAdd a.typ.default)
  | addr32 {id dir typ address vmaSize res addr} :
    WrittenAs w (.pointer id dir typ address vmaSize res) (.addr32 addr)
  | addr64 {id dir typ address vmaSize res addr} :
    WrittenAs w (.pointer id dir typ address vmaSize res) (.addr64 addr)
  | data {id dir typ data size readable} :
    WrittenAs w (.data id dir typ data size) (.data readable data)
  | union {id dir typ option index written} (h : WrittenAs w option written) :
    WrittenAs w (.union id dir typ option index) written

/-- What an argument that is accepted is written as. -/
lemma writtenAs_of_writeArg {written : InstrArg} : ∀ {arg : Arg},
    writeArg target w arg = .ok written → WrittenAs w arg written
  | .const .., h => by
    cases h
    exact .const
  | .result a, h => by
    rw [writeArg] at h
    split at h
    · rename_i hres
      cases h
      exact .value hres
    · rename_i res hres
      split at h
      · cases h
      · rename_i info hinfo
        cases h
        exact .ref hres hinfo
  | .pointer .., h => by
    rw [writeArg] at h
    split at h
    · cases h
    · split_ifs at h
      · cases h
        exact .addr32
      · cases h
        exact .addr64
  | .data .., h => by
    rw [writeArg] at h
    split_ifs at h
    cases h
    exact .data
  | .union .., h => .union (writtenAs_of_writeArg h)
  | .group .., h => by
    cases h

lemma WrittenAs.resultIdx?_eq {arg : Arg} {written : InstrArg}
    (h : WrittenAs w arg written) {done : List ArgId} (hidx : w.Indexed done) :
    written.resultIdx? =
      (arg.passedResult.bind (·.res)).map fun res => UInt64.ofNat (copyoutIdx done res) := by
  induction h with
  | value hres => simp [InstrArg.resultIdx?, Arg.passedResult, hres]
  | ref hres hinfo => simp [InstrArg.resultIdx?, Arg.passedResult, hres, hidx _ _ hinfo]
  | union _ ih => exact ih
  | _ => rfl

/-! ## Copyin -/

/-- The results that the given ones refer to. -/
def refs (l : List ResultArg) : List ArgId := l.filterMap (·.res)

/-- The indices that references to the given results are written with. -/
def writtenIdxs (done ids : List ArgId) : List UInt64 :=
  ids.map fun id => UInt64.ofNat (copyoutIdx done id)

lemma passedResult_of_not_skips {arg : Arg} (h : skipsCopyin arg = false) :
    arg.passedResult = arg.result? := by
  cases arg <;> first | rfl | cases h

/-- An argument is written at the visit. -/
def isCopied (visit : Arg × ArgCtx) : Bool := visit.2.base.isSome && !skipsCopyin visit.1

lemma filterMap_copiedResult (visits : List (Arg × ArgCtx)) :
    visits.filterMap copiedResult = (visits.filter isCopied).filterMap (·.1.passedResult) := by
  rw [filterMap_filter]
  refine filterMap_congr fun visit _ => ?_
  unfold copiedResult isCopied
  split_ifs with hcopied
  · rw [passedResult_of_not_skips (by simpa using (Bool.and_eq_true_iff.mp hcopied).2)]
  · rfl

section

variable {seen rets done : List ArgId} {visit : Arg × ArgCtx} {c : Call} {sums : Checksums}
  {w' : ExecContext} {out : List CopyinInstr}

/-- What a visit does: an argument that will be used is entered, and an argument that is not
skipped is written. -/
lemma copyinArg_cases (h : copyinArg target sums w visit = .ok (out, w')) :
    (w' = w ∧ (visit.2.base = none ∨ willBeUsed sums visit.1 = false) ∨
      ∃ base, visit.2.base = some base ∧ w' = w.setArg visit.1.id
        { addr := copyinAddr target visit.1 base visit.2.offset, idx := 0, ret := false }) ∧
    (out = [] ∧ isCopied visit = false ∨
      ∃ base written, out = [⟨copyinAddr target visit.1 base visit.2.offset, written⟩] ∧
        writeArg target w' visit.1 = .ok written ∧ visit.2.base = some base ∧
        isCopied visit = true) := by
  obtain ⟨arg, ctx⟩ := visit
  simp only [copyinArg] at h
  cases hbase : ctx.base with
  | none =>
    rw [hbase] at h
    cases h
    exact ⟨.inl ⟨rfl, .inl rfl⟩, .inl ⟨rfl, by simp [isCopied, hbase]⟩⟩
  | some base =>
    rw [hbase] at h
    dsimp only at h
    generalize hw₁ : (if willBeUsed sums arg then _ else w) = w₁ at h
    have hset : w₁ = w ∧ (some base = none ∨ willBeUsed sums arg = false) ∨
        ∃ base', some base = some base' ∧ w₁ = w.setArg arg.id
          { addr := copyinAddr target arg base' ctx.offset, idx := 0, ret := false } := by
      rw [← hw₁]
      split
      · exact .inr ⟨base, rfl, rfl⟩
      · rename_i hunused
        exact .inl ⟨rfl, .inr (Bool.eq_false_iff.mpr hunused)⟩
    cases hskip : skipsCopyin arg with
    | true =>
      rw [hskip] at h
      cases h
      exact ⟨hset, .inl ⟨rfl, by simp [isCopied, hskip]⟩⟩
    | false =>
      simp only [hskip, Bool.false_eq_true, if_false, bind_eq_ok_iff] at h
      obtain ⟨written, hwritten, h⟩ := h
      cases h
      exact ⟨hset, .inr ⟨base, written, rfl, hwritten, rfl, by simp [isCopied, hbase, hskip]⟩⟩

/-- The rule for copyins: what holds of the context at every visit holds where an argument is
written. -/
lemma emitAll_copyinArg_rule {visits : List (Arg × ArgCtx)} {I : ExecContext → Prop}
    (hset : ∀ visit ∈ visits, ∀ w addr, I w →
      I (w.setArg visit.1.id { addr, idx := 0, ret := false }))
    (hw : I w) (h : emitAll (copyinArg target sums) w visits = .ok (out, w')) :
    I w' ∧ List.Forall₂ (fun visit i => (∃ w, I w ∧ writeArg target w visit.1 = .ok i.arg) ∧
      ∃ base, visit.2.base = some base ∧ i.addr = copyinAddr target visit.1 base visit.2.offset)
      (visits.filter isCopied) out := by
  induction visits generalizing w out with
  | nil =>
    cases h
    exact ⟨hw, .nil⟩
  | cons visit visits ih =>
    rw [forall_mem_cons] at hset
    obtain ⟨out₁, w₁, out₂, hfirst, hrest, rfl⟩ := emitAll_cons_eq_ok_iff.1 h
    obtain ⟨hcontext, hout⟩ := copyinArg_cases hfirst
    have hw₁ : I w₁ := by
      rcases hcontext with ⟨rfl, -⟩ | ⟨base, -, rfl⟩
      · exact hw
      · exact hset.1 w _ hw
    obtain ⟨hw', hwritten⟩ := ih hset.2 hw₁ hrest
    refine ⟨hw', ?_⟩
    rcases hout with ⟨rfl, hcopied⟩ | ⟨base, written, rfl, hwrite, hbase, hcopied⟩
    · rw [filter_cons_of_neg (by simp [hcopied])]
      exact hwritten
    · rw [filter_cons_of_pos hcopied]
      exact .cons ⟨⟨w₁, hw₁, hwrite⟩, base, hbase, rfl⟩ hwritten

lemma writeCopyin_spec (hw : ContextInv seen rets done w)
    (hseen : ∀ arg ∈ c.retNodes ++ c.argNodes, arg.id ∈ seen)
    (hdone : ∀ arg ∈ c.retNodes ++ c.argNodes, arg.id ∉ done)
    (h : writeCopyin target sums w c = .ok (out, w')) :
    ContextInv seen rets done w' ∧
      out.filterMap (·.arg.resultIdx?) =
        writtenIdxs done (refs ((foreachArg c).filterMap copiedResult)) := by
  rw [← map_fst_foreachArg] at hseen hdone
  obtain ⟨hw', hout⟩ := emitAll_copyinArg_rule (fun visit hvisit w addr hw =>
    hw.setArg (hseen _ (mem_map_of_mem hvisit)) (hdone _ (mem_map_of_mem hvisit)) addr) hw h
  refine ⟨hw', ?_⟩
  rw [filterMap_of_forall₂ hout fun visit i ⟨⟨w, hw, hwritten⟩, _⟩ =>
    (writtenAs_of_writeArg hwritten).resultIdx?_eq hw.indexed]
  simp only [filterMap_copiedResult, writtenIdxs, refs, filterMap_filterMap, map_filterMap]

/-! ## The call -/

/-- The identities of the used results among the given arguments. -/
def usedIds (l : List Arg) : List ArgId := ((l.filterMap Arg.result?).filter (·.isUsed)).map (·.id)

lemma usedIds_append (l l' : List Arg) : usedIds (l ++ l') = usedIds l ++ usedIds l' := by
  simp [usedIds]

lemma usedIds_subset (l : List Arg) : usedIds l ⊆ l.map Arg.id := by
  intro id h
  simp only [usedIds, mem_map, mem_filter, mem_filterMap_result?] at h ⊢
  obtain ⟨r, ⟨hr, -⟩, rfl⟩ := h
  exact ⟨.result r, hr, rfl⟩

/-- Only what is known about a return value that is used changes. -/
lemma writeRet_argInfo {idx : UInt64} (h : writeRet w c = .ok (idx, w')) :
    (∀ id ∉ usedIds c.retNodes, w'.argInfo id = w.argInfo id) ∧
      ∀ id ∈ usedIds c.retNodes, (w'.argInfo id).ret = true := by
  unfold writeRet at h
  split at h
  · rename_i ret hret
    have hids : usedIds c.retNodes = if ret.isUsed then [ret.id] else [] := by
      cases hused : ret.isUsed <;> simp [usedIds, Call.retNodes, hret, Arg.result?, hused]
    split_ifs at h with hused
    · split at h
      · cases h
      · cases h
        simp +contextual [hids, hused, ExecContext.argInfo, setArg_args]
    · cases h
      simp [hids, hused]
  · rename_i hret
    cases h
    simp [usedIds, Call.retNodes, hret]

/-- A used return value gets the next index. -/
lemma writeRet_spec {idx : UInt64} (hw : ContextInv seen rets done w)
    (hseen : ∀ arg ∈ c.retNodes, arg.id ∈ seen) (hdone : ∀ arg ∈ c.retNodes, arg.id ∉ done)
    (h : writeRet w c = .ok (idx, w')) :
    ContextInv seen (rets ++ usedIds c.retNodes) (done ++ usedIds c.retNodes) w' ∧
      idx = if usedIds c.retNodes = [] then execNoCopyout else UInt64.ofNat done.length := by
  unfold writeRet at h
  cases hret : c.ret with
  | none =>
    rw [hret] at h
    cases h
    simp [Call.retNodes, hret, usedIds, hw]
  | some ret =>
    simp only [Call.retNodes, hret, Option.map_some, Option.toList_some, mem_singleton,
      forall_eq] at hseen hdone ⊢
    rw [hret] at h
    dsimp only at h
    cases hused : ret.isUsed with
    | false =>
      rw [hused] at h
      cases h
      simp [usedIds, Arg.result?, hused, hw]
    | true =>
      have hids : usedIds [Arg.result ret] = [ret.id] := by
        simp [usedIds, Arg.result?, hused]
      rw [hused, if_pos rfl] at h
      split at h
      · cases h
      · cases h
        rw [hids]
        exact ⟨hw.assign hseen hdone { addr := 0, idx := 0, ret := true } (by simp) (by simp),
          by simp [hw.seq]⟩

lemma mapM_writeArg_spec (hidx : w.Indexed done) {args : List Arg}
    {written : List InstrArg} (h : args.mapM (writeArg target w) = .ok written) :
    written.filterMap InstrArg.resultIdx? =
      writtenIdxs done (refs (args.filterMap Arg.passedResult)) := by
  rw [filterMap_of_forall₂ (forall₂_of_mapM h) fun arg i hwritten =>
    (writtenAs_of_writeArg hwritten).resultIdx?_eq hidx]
  simp only [writtenIdxs, refs, filterMap_filterMap, map_filterMap]

/-! ## Copyout -/

/-- Used results get the next indices, in the order of the visits. -/
lemma emitAll_copyoutArg_spec {visits : List (Arg × ArgCtx)}
    {out : List CopyoutInstr} (hw : ContextInv seen rets done w) {args : List Arg}
    (hargs : visits.map Prod.fst = args) (hseen : ∀ arg ∈ args, arg.id ∈ seen)
    (hdone : ∀ arg ∈ args, arg.id ∉ done) (hrets : ∀ arg ∈ args, arg.id ∉ rets)
    (hnodup : (args.map Arg.id).Nodup) (h : emitAll copyoutArg w visits = .ok (out, w')) :
    ContextInv seen rets (done ++ usedIds args) w' ∧
      out.map (·.idx) = (List.range' done.length (usedIds args).length).map UInt64.ofNat := by
  rw [← hargs]
  refine emitAll_invariant
    (fun visits out w => ContextInv seen rets (done ++ usedIds (visits.map Prod.fst)) w ∧
      out.map (·.idx) =
        (range' done.length (usedIds (visits.map Prod.fst)).length).map UInt64.ofNat)
    ?_ ⟨by simpa [usedIds] using hw, rfl⟩ h
  rintro pre visit rest out w out' w' hl ⟨hw, hout⟩ hstep
  have hmem : visit.1 ∈ args := by
    rw [← hargs, hl]
    simp
  rw [map_append, usedIds_append, map_singleton]
  -- an argument that is not a used result changes nothing
  have hnothing : usedIds [visit.1] = [] → out' = [] ∧ w' = w →
      ContextInv seen rets (done ++ (usedIds (pre.map Prod.fst) ++ usedIds [visit.1])) w' ∧
        (out ++ out').map (·.idx) = (range' done.length
          (usedIds (pre.map Prod.fst) ++ usedIds [visit.1]).length).map UInt64.ofNat := by
    rintro hids ⟨hout', hw'⟩
    rw [hids, hout', hw', append_nil, append_nil]
    exact ⟨hw, hout⟩
  unfold copyoutArg at hstep
  split at hstep
  · rename_i r hr
    dsimp only at hstep
    have hid : visit.1.id = r.id := by rw [hr, Arg.id_result]
    have hret : (w.argInfo r.id).ret = false := by
      rw [ExecContext.argInfo]
      cases hinfo : w.args r.id with
      | none => rfl
      | some info =>
        rw [Option.getD_some, ← Bool.not_eq_true]
        intro htrue
        exact hrets visit.1 hmem (hid ▸ hw.ret r.id info hinfo htrue)
    cases hused : r.isUsed with
    | false =>
      rw [hused] at hstep
      cases hstep
      exact hnothing (by simp [usedIds, hr, Arg.result?, hused]) ⟨rfl, rfl⟩
    | true =>
      rw [hused, hret] at hstep
      cases hstep
      have hids : usedIds [visit.1] = [r.id] := by simp [usedIds, hr, Arg.result?, hused]
      have hpre : r.id ∉ usedIds (pre.map Prod.fst) := by
        intro hin
        have hin := usedIds_subset _ hin
        rw [← hargs, hl, map_append, map_append, map_cons, map_cons, hid,
          nodup_middle, nodup_cons] at hnodup
        exact hnodup.1 (mem_append_left _ hin)
      have hfresh : r.id ∉ done ++ usedIds (pre.map Prod.fst) := by
        rw [mem_append, not_or]
        exact ⟨hid ▸ hdone visit.1 hmem, hpre⟩
      rw [hids, ← append_assoc]
      refine ⟨hw.assign (hid ▸ hseen visit.1 hmem) hfresh
        { addr := (w.argInfo r.id).addr, idx := 0, ret := false } (by simp) (Subset.refl _), ?_⟩
      rw [map_append, hout, length_append, length_singleton, range'_concat, map_append, hw.seq]
      simp
  · rename_i hother
    cases hstep
    refine hnothing ?_ ⟨rfl, rfl⟩
    have hnone : visit.1.result? = none := by
      rw [← Option.not_isSome_iff_eq_none, Option.isSome_iff_exists]
      rintro ⟨r, hr⟩
      exact hother r (result?_eq_some_iff.1 hr)
    simp [usedIds, hnone]

/-- The used results in the arguments of a call get the next indices. -/
lemma writeCopyout_spec {out : List CopyoutInstr}
    (hw : ContextInv seen rets done w) (hseen : ∀ arg ∈ c.argNodes, arg.id ∈ seen)
    (hdone : ∀ arg ∈ c.argNodes, arg.id ∉ done) (hrets : ∀ arg ∈ c.argNodes, arg.id ∉ rets)
    (hnodup : (c.argNodes.map Arg.id).Nodup)
    (hret : ∀ id ∈ usedIds c.retNodes, (w.argInfo id).ret = true)
    (h : writeCopyout w c = .ok (out, w')) :
    ContextInv seen rets (done ++ usedIds c.argNodes) w' ∧
      out.map (·.idx) =
        (List.range' done.length (usedIds c.argNodes).length).map UInt64.ofNat := by
  rw [writeCopyout, foreachArg] at h
  rw [emitAll_append_eq_ok_iff] at h
  obtain ⟨out₁, w₁, out₂, hfirst, hrest, rfl⟩ := h
  -- nothing is written for the return value, which has its index already
  obtain ⟨rfl, rfl⟩ : out₁ = [] ∧ w₁ = w := by
    cases hc : c.ret with
    | none =>
      rw [hc] at hfirst
      cases hfirst
      exact ⟨rfl, rfl⟩
    | some r =>
      rw [hc] at hfirst
      simp only [foreachArgImpl, emitAll_cons_eq_ok_iff] at hfirst
      obtain ⟨o, s, o', hvisit, hnil, rfl⟩ := hfirst
      cases hnil
      have hskip : (!r.isUsed || (w.argInfo r.id).ret) = true := by
        cases hused : r.isUsed with
        | false => rfl
        | true =>
          have hmem : r.id ∈ usedIds c.retNodes := by
            simp [usedIds, Call.retNodes, hc, Arg.result?, hused]
          rw [hret r.id hmem]
          rfl
      simp only [copyoutArg, hskip, if_true] at hvisit
      cases hvisit
      exact ⟨rfl, rfl⟩
  have hnodes : (c.args.flatMap (foreachArgImpl ⟨none, 0⟩)).map Prod.fst = c.argNodes := by
    simp only [map_flatMap, Call.argNodes, map_fst_foreachArgImpl]
  exact emitAll_copyoutArg_spec hw hnodes hseen hdone hrets hnodup hrest

/-! ## Skeletons

The only thing the serializer leaves open is the order in which checksum fields of one address
are written. A `CallSkeleton` is a serialized call without them; `fill` puts them in. -/

/-- The addresses of the context. -/
def ExecContext.addr (w : ExecContext) (id : ArgId) : UInt64 := (w.argInfo id).addr

structure CallSkeleton where
  copyin : List CopyinInstr
  sums : Checksums
  addr : ArgId → UInt64
  props : Option CallProps
  id : UInt64
  copyoutIdx : UInt64
  args : List InstrArg
  copyout : List CopyoutInstr

def CallSkeleton.fill (env : ExecEnv) (k : CallSkeleton) : EncodedCall :=
  { copyin := k.copyin ++ writeChecksums env k.sums k.addr, props := k.props, id := k.id
    copyoutIdx := k.copyoutIdx, args := k.args, copyout := k.copyout }

def skeleton (target : Target) (w : ExecContext) (c : Call) :
    Except ExecError (CallSkeleton × ExecContext) := do
  let sums ← (calcChecksumsCall c).mapError .panic
  let (copyin, w) ← writeCopyin target sums w c
  let addr := w.addr
  let props := if c.props = .zero then none else some c.props
  let (copyoutIdx, w) ← writeRet w c
  let args ← c.args.mapM (writeArg target w)
  let (copyout, w) ← writeCopyout w c
  return ({ copyin, sums, addr, props, id := UInt64.ofNat c.callMeta.id, copyoutIdx, args
            copyout }, w)

def skeletons (target : Target) :
    ExecContext → List Call → Except ExecError (List CallSkeleton × ExecContext) :=
  mapAccumM (skeleton target)

/-- Serializing a call is filling in the checksums of its skeleton. -/
lemma serializeCall_eq_fill (env : ExecEnv) (w : ExecContext)
    (hkfuzz : c.callMeta.kfuzzTest = false) :
    serializeCall env target w c = (skeleton target w c).map fun r => (r.1.fill env, r.2) := by
  unfold serializeCall skeleton
  rw [hkfuzz]
  cases (calcChecksumsCall c).mapError ExecError.panic with
  | error err => rfl
  | ok sums =>
    simp only [bind, Except.bind]
    cases writeCopyin target sums w c with
    | error err => rfl
    | ok r =>
      dsimp only
      cases writeRet r.2 c with
      | error err => rfl
      | ok r' =>
        dsimp only
        cases c.args.mapM (writeArg target r'.2) with
        | error err => rfl
        | ok args =>
          cases writeCopyout r'.2 c with
          | error err => rfl
          | ok r'' => rfl

lemma serializeCall_eq_ok {env : ExecEnv} {e : EncodedCall}
    (hkfuzz : c.callMeta.kfuzzTest = false) (h : serializeCall env target w c = .ok (e, w')) :
    ∃ k, skeleton target w c = .ok (k, w') ∧ k.fill env = e := by
  rw [serializeCall_eq_fill env w hkfuzz] at h
  obtain ⟨r, hskeleton, h⟩ := map_eq_ok_iff.1 h
  cases h
  exact ⟨r.1, hskeleton, rfl⟩

lemma mapError_eq_ok_iff {ε ε' α : Type} {f : ε → ε'} {x : Except ε α} {a : α} :
    x.mapError f = .ok a ↔ x = .ok a := by
  cases x <;> simp [Except.mapError]

variable {k : CallSkeleton}

lemma skeleton_eq_ok (h : skeleton target w c = .ok (k, w')) :
    ∃ w₁ w₂, calcChecksumsCall c = .ok k.sums ∧
      writeCopyin target k.sums w c = .ok (k.copyin, w₁) ∧ k.addr = w₁.addr ∧
      writeRet w₁ c = .ok (k.copyoutIdx, w₂) ∧ c.args.mapM (writeArg target w₂) = .ok k.args ∧
      writeCopyout w₂ c = .ok (k.copyout, w') ∧ k.id = UInt64.ofNat c.callMeta.id ∧
      k.props = if c.props = .zero then none else some c.props := by
  simp only [skeleton, bind_eq_ok_iff, mapError_eq_ok_iff] at h
  obtain ⟨sums, hsums, ⟨copyin, w₁⟩, hcopyin, ⟨idx, w₂⟩, hret, args, hargs, ⟨copyout, w₃⟩,
    hcopyout, h⟩ := h
  cases h
  exact ⟨w₁, w₂, hsums, hcopyin, rfl, hret, hargs, hcopyout, rfl, rfl⟩

lemma writtenIdxs_append_of_notMem {ids more : List ArgId} (h : ∀ id ∈ ids, id ∉ more) :
    writtenIdxs (done ++ more) ids = writtenIdxs done ids := by
  refine map_congr_left fun id hid => ?_
  by_cases hdone : id ∈ done
  · rw [copyoutIdx_append_of_mem hdone]
  · rw [copyoutIdx_of_notMem hdone, copyoutIdx_of_notMem (by simp [hdone, h id hid])]

/-- The calls are new to the context, and no argument of a call refers to its return value. -/
structure NewCalls (seen rets done : List ArgId) (w : ExecContext) (calls : List Call) : Prop where
  context : ContextInv seen rets done w
  rets_subset : rets ⊆ seen
  done_subset : done ⊆ seen
  notMem : ∀ arg ∈ calls.flatMap Call.nodes, arg.id ∉ seen
  nodup : ((calls.flatMap Call.nodes).map Arg.id).Nodup
  not_own : ∀ c ∈ calls, ∀ id ∈ refs c.writtenResults, id ∉ usedIds c.retNodes

section

variable {calls : List Call} (hcalls : NewCalls seen rets done w (c :: calls))

include hcalls

lemma NewCalls.head : (∀ arg ∈ c.nodes, arg.id ∉ seen) ∧ (c.nodes.map Arg.id).Nodup ∧
    ∀ id ∈ refs c.writtenResults, id ∉ usedIds c.retNodes := by
  have hnodup := hcalls.nodup
  rw [flatMap_cons, map_append] at hnodup
  exact ⟨fun arg harg => hcalls.notMem arg (mem_append_left _ harg), hnodup.of_append_left,
    hcalls.not_own c mem_cons_self⟩

lemma NewCalls.next {rets' done' : List ArgId}
    (hw' : ContextInv (seen ++ c.nodes.map Arg.id) rets' done' w')
    (hrets' : rets' ⊆ seen ++ c.nodes.map Arg.id) (hdone' : done' ⊆ seen ++ c.nodes.map Arg.id) :
    NewCalls (seen ++ c.nodes.map Arg.id) rets' done' w' calls := by
  have hnodup := hcalls.nodup
  rw [flatMap_cons, map_append, nodup_append] at hnodup
  refine ⟨hw', hrets', hdone', ?_, hnodup.2.1, (forall_mem_cons.mp hcalls.not_own).2⟩
  intro arg harg hin
  rcases mem_append.mp hin with hin | hin
  · exact hcalls.notMem arg (mem_append_right _ harg) hin
  · exact hnodup.2.2 _ hin _ (mem_map_of_mem harg) rfl

/-- What serializing a call does to the indices: the used results of the call get the next ones,
and references are written with the indices known before the call. -/
lemma skeleton_spec (h : skeleton target w c = .ok (k, w')) :
    ContextInv (seen ++ c.nodes.map Arg.id) (rets ++ usedIds c.retNodes)
        (done ++ usedIds c.retNodes ++ usedIds c.argNodes) w' ∧
      (k.copyin.filterMap (·.arg.resultIdx?) ++ k.args.filterMap InstrArg.resultIdx? =
        writtenIdxs done (refs c.writtenResults)) ∧
      k.copyoutIdx =
        (if usedIds c.retNodes = [] then execNoCopyout else UInt64.ofNat done.length) ∧
      k.copyout.map (·.idx) = (List.range' (done ++ usedIds c.retNodes).length
        (usedIds c.argNodes).length).map UInt64.ofNat := by
  obtain ⟨hnew, hnodup, hret⟩ := hcalls.head
  obtain ⟨w₁, w₂, -, hcopyin, -, hwriteRet, hargs, hcopyout, -⟩ := skeleton_eq_ok h
  have hargMem : ∀ arg ∈ c.argNodes, arg ∈ c.nodes := fun arg => mem_append_left _
  have hretMem : ∀ arg ∈ c.retNodes, arg ∈ c.nodes := fun arg => mem_append_right _
  have hnodes : ∀ arg ∈ c.retNodes ++ c.argNodes, arg ∈ c.nodes :=
    forall_mem_append.mpr ⟨hretMem, hargMem⟩
  have hseen' : ∀ arg ∈ c.nodes, arg.id ∈ seen ++ c.nodes.map Arg.id :=
    fun arg harg => mem_append_right _ (mem_map_of_mem harg)
  have hdone' : ∀ arg ∈ c.nodes, arg.id ∉ done :=
    fun arg harg hin => hnew arg harg (hcalls.done_subset hin)
  -- arguments and the return value are different
  rw [Call.nodes, map_append, nodup_append] at hnodup
  have hdisjoint : ∀ arg ∈ c.argNodes, arg.id ∉ usedIds c.retNodes := by
    intro arg harg hused
    exact hnodup.2.2 arg.id (mem_map_of_mem harg) arg.id (usedIds_subset _ hused) rfl
  obtain ⟨h₁, hin₁⟩ := writeCopyin_spec (hcalls.context.mono (subset_append_left _ _))
    (fun arg harg => hseen' arg (hnodes arg harg)) (fun arg harg => hdone' arg (hnodes arg harg))
    hcopyin
  obtain ⟨h₂, hidx⟩ := writeRet_spec h₁ (fun arg harg => hseen' arg (hretMem arg harg))
    (fun arg harg => hdone' arg (hretMem arg harg)) hwriteRet
  have hpassed := mapM_writeArg_spec h₂.indexed hargs
  rw [writtenIdxs_append_of_notMem fun id hid => hret id (by
    rw [Call.writtenResults, refs, filterMap_append]
    exact mem_append_right _ hid)] at hpassed
  obtain ⟨h₃, hout⟩ := writeCopyout_spec h₂ (fun arg harg => hseen' arg (hargMem arg harg))
    (fun arg harg hin => by
      rcases mem_append.mp hin with hin | hin
      · exact hdone' arg (hargMem arg harg) hin
      · exact hdisjoint arg harg hin)
    (fun arg harg hin => by
      rcases mem_append.mp hin with hin | hin
      · exact hnew arg (hargMem arg harg) (hcalls.rets_subset hin)
      · exact hdisjoint arg harg hin)
    hnodup.1 (writeRet_argInfo hwriteRet).2 hcopyout
  refine ⟨h₃, ?_, hidx, hout⟩
  rw [hin₁, hpassed]
  simp [writtenIdxs, refs, Call.writtenResults]

end

end

end KConfuzz
