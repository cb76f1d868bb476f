import KConfuzz.Exec.EncodingTheorems
import KConfuzz.Executor.MemoryTheorems

/-!
# The copyins of a call

Which instructions `writeCopyin` writes (`CopyinOf`), and what they store when the memory they
find does not matter: a copyin that is not the one of a bitfield or of a checksum stores bytes of
its own (`Pointwise`).
-/

namespace KConfuzz.Executor

open Lib.ByteMemory Lib.ExceptFold

/-! ## Written instructions -/

/-- The copyin `i` is what `writeCopyin` writes at a visit. -/
structure CopyinOf (target : Target) (visit : Arg × ArgCtx) (i : CopyinInstr) : Prop where
  not_skipped : skipsCopyin visit.1 = false
  written : ∃ w, writeArg target w visit.1 = .ok i.arg
  addr_eq : ∃ base, visit.2.base = some base ∧
    i.addr = copyinAddr target visit.1 base visit.2.offset

lemma mem_emitAll_copyinArg {target : Target} {sums : Checksums} {w w' : ExecContext}
    {visits : List (Arg × ArgCtx)} {out : List CopyinInstr}
    (h : emitAll (copyinArg target sums) w visits = .ok (out, w')) :
    ∀ i ∈ out, ∃ visit ∈ visits, CopyinOf target visit i := by
  obtain ⟨-, hout⟩ :=
    emitAll_copyinArg_rule (I := fun _ => True) (fun _ _ _ _ _ => trivial) trivial h
  intro i hi
  obtain ⟨visit, hvisit, ⟨w, -, hwritten⟩, haddr⟩ := exists_mem_of_forall₂ hout hi
  obtain ⟨hvisit, hcopied⟩ := List.mem_filter.mp hvisit
  refine ⟨visit, hvisit, ?_, ⟨w, hwritten⟩, haddr⟩
  simpa using (Bool.and_eq_true_iff.mp hcopied).2

/-! ## Memory that does not matter -/

/-- What the argument leaves at an address depends on what was at this address, if anything. -/
def Pointwise (arg : InstrArg) : Prop :=
  ∀ (rt : Runtime) (mem mem' : Memory) (addr x : UInt64), mem x = mem' x →
    storeArg rt mem addr arg x = storeArg rt mem' addr arg x

lemma store_pointwise {mem mem' : Memory} {x : UInt64} (h : mem x = mem' x) (addr : UInt64)
    (bytes : List UInt8) : store mem addr bytes x = store mem' addr bytes x := by
  rw [store, store, h]

lemma copyin_pointwise {mem mem' : Memory} {x : UInt64} (h : mem x = mem' x)
    (addr val size bf : UInt64) :
    copyin mem addr val size bf 0 0 x = copyin mem' addr val size bf 0 0 x := by
  unfold copyin copyinInt
  split_ifs with hformat hplain
  · exact store_pointwise h ..
  · exact absurd (And.intro rfl rfl) hplain
  · exact store_pointwise h ..

lemma pointwise_const {info : UInt64} (hoff : (info >>> 16) &&& 0xff = 0)
    (hlen : (info >>> 24) &&& 0xff = 0) (val : UInt64) : Pointwise (.const info val) := by
  intro rt mem mem' addr x h
  simp only [storeArg, hoff, hlen]
  exact copyin_pointwise h ..

lemma execCopyins_pointwise {rt : Runtime} {is : List CopyinInstr} (his : ∀ i ∈ is, Pointwise i.arg)
    {mem₁ mem₁' : Memory} (hexec : execCopyins rt mem₁ is = .ok mem₁') (mem₂ : Memory) :
    ∃ mem₂', execCopyins rt mem₂ is = .ok mem₂' ∧ ∀ x, mem₁ x = mem₂ x → mem₁' x = mem₂' x := by
  induction is generalizing mem₁ mem₂ with
  | nil =>
    cases hexec
    exact ⟨mem₂, rfl, fun x h => h⟩
  | cons i is ih =>
    obtain ⟨hi, his⟩ := List.forall_mem_cons.mp his
    obtain ⟨hcheck, hrest⟩ := execCopyins_cons_eq_ok_iff.1 hexec
    obtain ⟨mem₂', hexec₂, hsame⟩ := ih his hrest (storeArg rt mem₂ i.addr i.arg)
    exact ⟨mem₂', execCopyins_cons_eq_ok_iff.2 ⟨hcheck, hexec₂⟩,
      fun x h => hsame x (hi rt mem₁ mem₂ i.addr x h)⟩

end KConfuzz.Executor
