import KConfuzz.Exec.EncodingTheorems
import KConfuzz.Executor.MemoryTheorems
import KConfuzz.Linux.KernelView

/-!
# The registers of an executed call

A plain integer argument of a call is the register with its number, whatever the results of
earlier calls are (`kernelView_arg`).
-/

namespace KConfuzz.Linux

open Executor Lib.ByteMemory Lib.ExceptFold

variable {env : ExecEnv} {target : Target} {w : ExecContext} {rt : Runtime} {skip : ℕ} {c : Call}
  {view : KernelView}

lemma kernelViewFrom_eq_some_iff :
    kernelViewFrom env target w rt skip c = some view ↔
      ∃ e w' mem, serializeCall env target w c = .ok (e, w') ∧
        execCopyins rt (fun _ => 0) (e.copyin.drop skip) = .ok mem ∧
        e.args.mapM (readArg rt) = .ok view.args ∧ view.mem = fun x => mem (x - rt.dataOffset) := by
  simp only [kernelViewFrom, Option.bind_eq_bind, Option.bind_eq_some_iff, toOption_eq_some_iff,
    Prod.exists, Option.pure_def, Option.some.injEq]
  constructor
  · intro ⟨e, w', hser, mem, hexec, args, hargs, hview⟩
    cases hview
    exact ⟨e, w', mem, hser, hexec, hargs, rfl⟩
  · intro ⟨e, w', mem, hser, hexec, hargs, hmem⟩
    exact ⟨e, w', hser, mem, hexec, view.args, hargs, by rw [← hmem]⟩

/-! ## Plain integers -/

variable {typ : ScalarType}

lemma isPlain_iff : isPlain typ = true ↔
    (match typ with
      | .proc _ | .csum _ => False
      | typ => typ.isPad = false) ∧
    typ.common.argFormat = .formatNative ∧ typ.common.bitfieldOff = 0 ∧
      typ.common.bitfieldLen = 0 ∧ typ.common.bitfieldUnitOff = 0 ∧
      typ.common.typeSize ∈ [1, 2, 4, 8] := by
  cases typ <;> simp [isPlain, and_assoc]

lemma isPad_of_isPlain (h : isPlain typ = true) : typ.isPad = false := by
  have hkind := (isPlain_iff.1 h).1
  cases typ with
  | const t => exact hkind
  | _ => rfl

lemma value_of_isPlain (h : isPlain typ = true) (val : UInt64) : typ.value val = (val, 0) := by
  have hkind := (isPlain_iff.1 h).1
  cases typ with
  | proc t => cases hkind
  | csum t => cases hkind
  | _ => rfl

lemma writeArg_plain (h : isPlain typ = true) (id : ArgId) (dir : Dir) (val : UInt64) :
    writeArg target w (.const id dir typ val) = .ok (.const typ.common.typeSize val) := by
  obtain ⟨-, hformat, hoff, hlen, -⟩ := isPlain_iff.1 h
  have hunit : typ.common.unitSize = typ.common.typeSize := by
    simp [IntTypeCommon.unitSize, hlen]
  simp only [writeArg, value_of_isPlain h, writeConstArg, hunit, hoff, hlen, hformat]
  simp [BinaryFormat.toUInt64]

/-- A plain constant is passed as it is. -/
lemma readArg_plain {size : UInt64} (h : size ∈ [1, 2, 4, 8]) (val : UInt64) :
    readArg rt (.const size val) = .ok val := by
  have hcheck : checkArg (.const size val) = .ok () ∧ size >>> 32 = 0 ∧
      (size >>> 8) &&& 0xff = 0 := by
    simp only [List.mem_cons, List.not_mem_nil, or_false] at h
    obtain rfl | rfl | rfl | rfl := h
    · exact ⟨rfl, rfl, rfl⟩
    · exact ⟨rfl, rfl, rfl⟩
    · exact ⟨rfl, rfl, rfl⟩
    · exact ⟨rfl, rfl, rfl⟩
  obtain ⟨hcheck, hstride, hformat⟩ := hcheck
  have hvalue : argValue rt (.const size val) = val := by
    rw [argValue, readConstArg, hstride, hformat, UInt64.zero_mul, UInt64.add_zero]
    exact if_pos (.inl rfl)
  rw [readArg, hcheck, hvalue]
  rfl

/-! ## Registers -/

/-- The kernel sees the value of a plain constant. -/
lemma kernelView_arg (hkfuzz : c.callMeta.kfuzzTest = false)
    (hview : kernelViewFrom env target w rt skip c = some view) {i : ℕ} {id : ArgId} {dir : Dir}
    {val : UInt64} (hplain : isPlain typ = true) (harg : c.args[i]? = some (.const id dir typ val)) :
    view.arg i = val := by
  obtain ⟨e, w', mem, hser, -, hargs, -⟩ := kernelViewFrom_eq_some_iff.1 hview
  obtain ⟨k, hskeleton, rfl⟩ := serializeCall_eq_ok hkfuzz hser
  obtain ⟨w₁, w₂, -, -, -, -, hwritten, -⟩ := skeleton_eq_ok hskeleton
  obtain ⟨written, hwrite, hget⟩ := getElem?_of_mapM hwritten harg
  rw [writeArg_plain hplain] at hwrite
  cases hwrite
  obtain ⟨v, hread, hget⟩ := getElem?_of_mapM hargs hget
  rw [readArg_plain (isPlain_iff.1 hplain).2.2.2.2.2] at hread
  cases hread
  rw [KernelView.arg, List.getD_eq_getElem?_getD, hget]
  rfl

end KConfuzz.Linux
