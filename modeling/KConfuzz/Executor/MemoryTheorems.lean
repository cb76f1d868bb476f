import KConfuzz.Executor.Memory

/-!
# Where copyin instructions store

`extent arg` is the number of bytes that a copyin of `arg` stores, and everything else stays as it
is (`storeArg_of_not_inRange`, `execCopyins_of_not_inRange`).
-/

namespace KConfuzz.Executor

open Lib.ByteMemory Lib.ExceptFold Lib.LittleEndian

variable {rt : Runtime} {mem mem' : Memory} {addr x : UInt64}

/-! ## One instruction -/

@[simp] lemma length_digits (base width v : ℕ) : (digits base width v).length = width := by
  induction width generalizing v with
  | zero => rfl
  | succ width ih => simp [digits, ih]

/-- How many bytes `copyin` stores. -/
def copyinExtent (size bf : UInt64) : ℕ :=
  if bf = binaryFormatNative ∨ bf = binaryFormatBigendian then size.toNat
  else (numberText 0 bf).length + 1

lemma length_numberText (val bf : UInt64) :
    (numberText val bf).length = (numberText 0 bf).length := by
  unfold numberText
  split_ifs <;> simp

lemma copyin_of_not_inRange {val size bf bfOff bfLen : UInt64}
    (h : ¬ InRange addr (copyinExtent size bf) x) :
    copyin mem addr val size bf bfOff bfLen x = mem x := by
  unfold copyinExtent at h
  unfold copyin
  split_ifs at h ⊢ with hformat
  · unfold copyinInt
    split_ifs <;> exact store_of_not_inRange (by rwa [Host.order, length_toLE])
  · apply store_of_not_inRange
    rwa [List.length_append, length_numberText, List.length_singleton]

/-- How many bytes a copyin of the argument stores. -/
def extent : InstrArg → ℕ
  | .const info _ => copyinExtent (info &&& 0xff) ((info >>> 8) &&& 0xff)
  | .addr32 _ => 4
  | .addr64 _ => 8
  | .result info _ _ _ _ => copyinExtent (info &&& 0xff) (info >>> 8)
  | .data _ blob => blob.length
  | .csum .. => 2

lemma storeArg_of_not_inRange {arg : InstrArg} (h : ¬ InRange addr (extent arg) x) :
    storeArg rt mem addr arg x = mem x := by
  cases arg with
  | const info val | result info idx opDiv opAdd default | csum size kind chunks =>
    exact copyin_of_not_inRange h
  | addr32 val | addr64 val => exact store_of_not_inRange (by rwa [length_toLE])
  | data readable blob => exact store_of_not_inRange h

/-! ## A list of instructions -/

lemma execCopyin_eq_ok_iff {i : CopyinInstr} :
    execCopyin rt mem i = .ok mem' ↔
      checkCopyinArg i.arg = .ok () ∧ mem' = storeArg rt mem i.addr i.arg := by
  rw [execCopyin, bind_eq_ok_iff]
  constructor
  · intro ⟨_, hcheck, h⟩
    cases h
    exact ⟨hcheck, rfl⟩
  · intro ⟨hcheck, h⟩
    exact ⟨(), hcheck, by rw [h]; rfl⟩

variable {is : List CopyinInstr}

lemma execCopyins_cons_eq_ok_iff {i : CopyinInstr} :
    execCopyins rt mem (i :: is) = .ok mem' ↔
      checkCopyinArg i.arg = .ok () ∧
        execCopyins rt (storeArg rt mem i.addr i.arg) is = .ok mem' := by
  rw [execCopyins, List.foldlM_cons, bind_eq_ok_iff]
  constructor
  · intro ⟨mem₁, hfirst, hrest⟩
    obtain ⟨hcheck, rfl⟩ := execCopyin_eq_ok_iff.1 hfirst
    exact ⟨hcheck, hrest⟩
  · intro ⟨hcheck, hrest⟩
    exact ⟨_, execCopyin_eq_ok_iff.2 ⟨hcheck, rfl⟩, hrest⟩

lemma execCopyins_append_eq_ok_iff {is' : List CopyinInstr} :
    execCopyins rt mem (is ++ is') = .ok mem' ↔
      ∃ mem₁, execCopyins rt mem is = .ok mem₁ ∧ execCopyins rt mem₁ is' = .ok mem' := by
  rw [execCopyins, List.foldlM_append, bind_eq_ok_iff]
  rfl

lemma execCopyins_of_not_inRange (hexec : execCopyins rt mem is = .ok mem')
    (h : ∀ i ∈ is, ¬ InRange i.addr (extent i.arg) x) : mem' x = mem x := by
  induction is generalizing mem with
  | nil =>
    cases hexec
    rfl
  | cons i is ih =>
    obtain ⟨hfirst, hrest⟩ := List.forall_mem_cons.mp h
    obtain ⟨_, hexec⟩ := execCopyins_cons_eq_ok_iff.1 hexec
    rw [ih hexec hrest, storeArg_of_not_inRange hfirst]

lemma load_execCopyins_of_apart {n : ℕ} (hexec : execCopyins rt mem is = .ok mem') (hn : n ≤ 2 ^ 64)
    (h : ∀ i ∈ is, Apart addr n i.addr (extent i.arg)) : load mem' addr n = load mem addr n :=
  load_congr hn fun x hx => execCopyins_of_not_inRange hexec fun i hi => h i hi x hx

end KConfuzz.Executor
