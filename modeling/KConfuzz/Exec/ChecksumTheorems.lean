import KConfuzz.Exec.EncodingTheorems

/-!
# Checksum instructions

The checksum fields of a call are written by address, and fields of one address in whatever order
the loop over the map leaves them. What is written does not depend on that order exactly when
fields of one address have the same instruction (`writeChecksums_eq_of_agree`,
`agree_of_writeChecksums_eq`).
-/

namespace KConfuzz

open Lib.ExceptFold Lib.StableSort List

variable {target : Target}

/-! ## Addresses -/

/-- Where a visit places an argument; a later visit of the same argument replaces an earlier
one. -/
def addrIn (target : Target) (visits : List (Arg × ArgCtx)) (id : ArgId) : UInt64 :=
  (visits.reverse.findSome? fun visit =>
    if visit.1.id = id then
      visit.2.base.map fun base => copyinAddr target visit.1 base visit.2.offset
    else none).getD 0

/-- The address of an argument of a call, zero for the ones that are not in memory. -/
def Call.argAddr (target : Target) (c : Call) : ArgId → UInt64 := addrIn target (foreachArg c)

/-- The argument is a checksum field, or one is computed over it. -/
def Checksums.Reads (sums : Checksums) (id : ArgId) : Prop :=
  (∃ field ∈ sums.csumMap, field.1.id = id) ∨ id ∈ sums.csumUses

variable {sums : Checksums} {w w' : ExecContext} {out : List CopyinInstr}

lemma willBeUsed_of_reads {arg : Arg} (h : sums.Reads arg.id) : willBeUsed sums arg = true := by
  unfold willBeUsed
  rcases h with ⟨field, hfield, hid⟩ | huses
  · have : sums.csumMap.any (·.1.id == arg.id) = true :=
      any_eq_true.mpr ⟨field, hfield, beq_iff_eq.mpr hid⟩
    simp [this]
  · simp [huses]

/-- A visit notes the address of an argument that will be used. -/
lemma copyinArg_argInfo {visit : Arg × ArgCtx} (h : copyinArg target sums w visit = .ok (out, w'))
    {id : ArgId} (hused : visit.1.id = id → willBeUsed sums visit.1 = true) :
    w'.argInfo id = if visit.1.id = id then (visit.2.base.map fun base =>
      ⟨copyinAddr target visit.1 base visit.2.offset, 0, false⟩).getD (w.argInfo id)
      else w.argInfo id := by
  obtain ⟨⟨rfl, hsame⟩ | ⟨base, hbase, rfl⟩, -⟩ := copyinArg_cases h
  · by_cases harg : visit.1.id = id
    · rcases hsame with hbase | hunused
      · rw [if_pos harg, hbase]
        rfl
      · rw [hused harg] at hunused
        cases hunused
    · rw [if_neg harg]
  · rw [hbase]
    by_cases harg : visit.1.id = id
    · simp [ExecContext.argInfo, setArg_args, harg]
    · simp [ExecContext.argInfo, setArg_args, harg, Ne.symm harg]

/-- After the copyins the context knows the addresses that are needed later. -/
lemma writeCopyin_argInfo {c : Call} (h : writeCopyin target sums w c = .ok (out, w')) {id : ArgId}
    (hused : ∀ visit ∈ foreachArg c, visit.1.id = id → willBeUsed sums visit.1 = true)
    (hnew : w.args id = none) : w'.argInfo id = ⟨c.argAddr target id, 0, false⟩ := by
  refine emitAll_invariant (fun visits _ w' => w'.argInfo id = ⟨addrIn target visits id, 0, false⟩)
    ?_ ?_ h
  · intro visits visit rest out w out' w' hvisits hw hstep
    rw [copyinArg_argInfo hstep (hused visit (by simp [hvisits])), hw]
    unfold addrIn
    rw [reverse_append, reverse_singleton, singleton_append, findSome?_cons]
    split_ifs with hvisit
    · cases visit.2.base <;> rfl
    · rfl
  · simp [ExecContext.argInfo, hnew, addrIn, ArgInfo.zero]

lemma writeCopyin_addr {c : Call} (h : writeCopyin target sums w c = .ok (out, w')) {id : ArgId}
    (hid : sums.Reads id) (hnew : w.args id = none) : w'.addr id = c.argAddr target id := by
  have hinfo := writeCopyin_argInfo h (fun _ _ hvisit => willBeUsed_of_reads (hvisit ▸ hid)) hnew
  rw [ExecContext.addr, hinfo]

/-- A copyout reads a used result where it was put, unless it is the return value. -/
lemma writeCopyout_places {c : Call} {out : List CopyoutInstr}
    (h : writeCopyout w c = .ok (out, w')) :
    out.map (fun i => (i.addr, i.size)) =
      (((c.retNodes ++ c.argNodes).filterMap Arg.result?).filter fun r =>
        r.isUsed && !(w.argInfo r.id).ret).map fun r => (w.addr r.id, r.typ.typeSize) := by
  rw [← map_fst_foreachArg]
  refine (emitAll_invariant (fun visits out w' =>
    (∀ id, w'.addr id = w.addr id ∧ (w'.argInfo id).ret = (w.argInfo id).ret) ∧
      out.map (fun i => (i.addr, i.size)) =
        (((visits.map Prod.fst).filterMap Arg.result?).filter fun r =>
          r.isUsed && !(w.argInfo r.id).ret).map fun r => (w.addr r.id, r.typ.typeSize))
    ?_ ⟨fun _ => ⟨rfl, rfl⟩, rfl⟩ h).2
  rintro visits visit rest out w₁ out' w₂ - ⟨hsame, hout⟩ hstep
  simp only [map_append, filterMap_append, filter_append, hout, append_cancel_left_eq]
  unfold copyoutArg at hstep
  split at hstep
  · rename_i r hr
    have hresult : [visit].map Prod.fst = [.result r] := by rw [map_singleton, hr]
    rw [hresult]
    dsimp only at hstep
    rw [(hsame r.id).2] at hstep
    split_ifs at hstep with hskip
    · cases hstep
      exact ⟨hsame, by simpa [Arg.result?, or_iff_not_imp_left] using hskip⟩
    · cases hstep
      refine ⟨fun id => ?_, ?_⟩
      · by_cases hid : id = r.id
        · subst hid
          simpa [ExecContext.addr, ExecContext.argInfo, setArg_args] using (hsame r.id).1
        · simpa [ExecContext.addr, ExecContext.argInfo, setArg_args, hid] using hsame id
      · have haddr := (hsame r.id).1
        simp_all [Arg.result?, ExecContext.addr]
  · rename_i hother
    cases hstep
    have hnone : visit.1.result? = none := by
      rw [Option.eq_none_iff_forall_ne_some]
      exact fun r hr => hother r (result?_eq_some_iff.1 hr)
    exact ⟨hsame, by simp [hnone]⟩

/-! ## The order of the instructions -/

/-- Fields of one address are written the same. -/
def Checksums.Agree (sums : Checksums) (addr : ArgId → UInt64) : Prop :=
  ∀ x ∈ sums.csumMap, ∀ y ∈ sums.csumMap, addr x.1.id = addr y.1.id →
    csumInstr addr x = csumInstr addr y

variable {addr : ArgId → UInt64}

lemma csumInstr_congr {addr' : ArgId → UInt64} (h : ∀ id, sums.Reads id → addr id = addr' id)
    {field : Arg × CsumInfo} (hfield : field ∈ sums.csumMap)
    (hchunks : ∀ a, .arg a ∈ field.2.chunks → a.id ∈ sums.csumUses) :
    csumInstr addr field = csumInstr addr' field := by
  have haddr : addr field.1.id = addr' field.1.id := h _ (.inl ⟨field, hfield, rfl⟩)
  have hlist : field.2.chunks.map (csumChunk addr) = field.2.chunks.map (csumChunk addr') := by
    refine map_congr_left fun chunk hchunk => ?_
    cases chunk with
    | arg a => simp only [csumChunk, h _ (.inr (hchunks a hchunk))]
    | const value size => rfl
  rw [csumInstr, csumInstr, haddr, hlist]

lemma csumLess_compares (addr : ArgId → UInt64) :
    Compares (fun a b : Arg × CsumInfo => decide (addr a.1.id < addr b.1.id))
      fun a => (addr a.1.id).toNat := by
  intro a b
  rw [decide_eq_true_eq, UInt64.lt_iff_toNat_lt]

lemma writeChecksums_eq_of_agree (hagree : sums.Agree addr) (env env' : ExecEnv) :
    writeChecksums env sums addr = writeChecksums env' sums addr := by
  have hmap := (csumLess_compares addr).map_sliceStable_eq
    ((env.visit_perm sums.csumMap).trans (env'.visit_perm sums.csumMap).symm)
    (f := csumInstr addr) fun x hx y hy hkey =>
      hagree x ((env.visit_perm _).mem_iff.mp hx) y ((env.visit_perm _).mem_iff.mp hy)
        (UInt64.toNat.inj hkey)
  rw [writeChecksums, writeChecksums, map_reverse, map_reverse, hmap]

open Classical in
/-- The loop over a map may come to any of its entries first. -/
noncomputable def ExecEnv.visitFirst (x : Arg × CsumInfo) : ExecEnv where
  visit l := if x ∈ l then x :: l.erase x else l
  visit_perm l := by
    split
    · rename_i hx
      exact (perm_cons_erase hx).symm
    · exact .refl l
  marshallKFuzztestArg _ := []

/-- The first of the instructions for the address of `x` (the last one written) is the one for
`x` when the loop comes to `x` first. -/
lemma head?_filter_writeChecksums (addr : ArgId → UInt64) {x : Arg × CsumInfo}
    (hx : x ∈ sums.csumMap) :
    ((writeChecksums (.visitFirst x) sums addr).reverse.filter
      (·.addr = addr x.1.id)).head? = some (csumInstr addr x) := by
  rw [writeChecksums, map_reverse, reverse_reverse, filter_map]
  have hfilter := (csumLess_compares addr).filter_key_sliceStable
    ((ExecEnv.visitFirst x).visit sums.csumMap) (addr x.1.id).toNat
  simp only [UInt64.toNat_inj] at hfilter
  have hcomp : ((fun i : CopyinInstr => decide (i.addr = addr x.1.id)) ∘ csumInstr addr) =
      fun a => decide (addr a.1.id = addr x.1.id) := rfl
  rw [hcomp, hfilter]
  simp [ExecEnv.visitFirst, hx]

lemma agree_of_writeChecksums_eq
    (h : ∀ env env' : ExecEnv, writeChecksums env sums addr = writeChecksums env' sums addr) :
    sums.Agree addr := by
  intro x hx y hy haddr
  have hx' := head?_filter_writeChecksums addr hx
  have hy' := head?_filter_writeChecksums addr hy
  rw [h (.visitFirst x) (.visitFirst y), haddr] at hx'
  exact Option.some.inj (hx'.symm.trans hy')

end KConfuzz
