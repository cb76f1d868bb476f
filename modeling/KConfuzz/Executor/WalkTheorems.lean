import KConfuzz.Exec.ResolveTheorems
import KConfuzz.Executor.InputTheorems
import KConfuzz.Executor.Walk

/-!
# The executor and the decoder read a program alike

`walk_encodeBuffer` says what the executor comes across in a buffer: the calls, each with the
copyouts behind it, and the config actions between them. The decoder finds the same, up to three
things: it keeps call properties as 64-bit integers, where the executor has an `int`, it only looks
at eight bits of the format of a result, and it wants the last result to be read. `agree_iff` says
when that makes no difference.
-/

namespace KConfuzz.Executor

open Lib.ExceptFold Lib.Parser Lib.Varint List EncodedCall

variable {target : Target} {out : List CopyinInstr}

/-! ## Words -/

lemma and_mask_of_lt {b : UInt8} (h : b < 0x80) : b &&& 0x7f = b := by
  have hlt : b.toNat < 128 := UInt8.lt_iff_toNat_lt.mp h
  have hmask : (0x7f : UInt8).toNat = 2 ^ 7 - 1 := rfl
  apply UInt8.toNat.inj
  rw [UInt8.toNat_and, hmask, Nat.and_two_pow_sub_one_eq_mod]
  omega

/-- The executor and the decoder read the same varints. -/
lemma toOption_readInputFrom (i : ℕ) (v : UInt64) (pos : List UInt8) :
    (readInputFrom i v pos).toOption = uvarintFrom i v pos := by
  induction pos generalizing i v with
  | nil => rfl
  | cons b pos ih =>
    rw [readInputFrom, uvarintFrom]
    by_cases hi : i = 10
    · rw [if_pos hi, if_pos hi]
      rfl
    rw [if_neg hi, if_neg hi]
    by_cases hb : b < 0x80
    · rw [if_pos hb, if_pos hb, and_mask_of_lt hb]
      split_ifs <;> rfl
    · rw [if_neg hb, if_neg hb]
      exact ih _ _

lemma toOption_readInputAt (pos : List UInt8) : (readInputAt pos).toOption = varint pos := by
  have hloop := toOption_readInputFrom 0 0 pos
  rw [varint, uvarint, ← hloop, readInputAt]
  cases readInputFrom 0 0 pos with
  | error err => rfl
  | ok r =>
    show some _ = some _
    simp only [unzigzag, ne_eq, ite_not]

lemma readInputAt_write (v : UInt64) (rest : List UInt8) :
    readInputAt (write v ++ rest) = .ok (v, rest) := by
  have h := toOption_readInputAt (write v ++ rest)
  rw [write, varint_appendVarint] at h
  exact toOption_eq_some_iff.1 h

/-! ## The loop on instructions -/

/-- The walk over instructions that can be read back. -/
def walkAll (target : Target) : Walk → List Instr → Except String Walk
  | _, [] => .error "input command overflows input"
  | w, instr :: instrs =>
    if received instr = .eof then .ok w
    else do
      let w ← walkInstr target w (encodeAll instrs) (received instr)
      walkAll target w instrs

/-- The walk goes from instruction to instruction. -/
lemma walkLoop_encodeAll {instrs : List Instr} (h : ReadableAll target instrs) {n : ℕ}
    (hn : instrs.length < n) (w : Walk) (heof : .eof ∈ instrs) :
    walkLoop target n w (encodeAll instrs) = walkAll target w instrs := by
  induction instrs generalizing n w with
  | nil => cases heof
  | cons instr instrs ih =>
    obtain ⟨n, rfl⟩ : ∃ m, n = m + 1 := ⟨n - 1, by omega⟩
    rw [walkLoop, fetchInstr_encodeAll h, walkAll]
    show (if received instr = .eof then _ else _) = _
    split_ifs with hend
    · rfl
    · show (walkInstr target w (encodeAll instrs) (received instr) >>= _) = _
      cases walkInstr target w (encodeAll instrs) (received instr) with
      | error err => rfl
      | ok w =>
        have hne : instr ≠ .eof := fun h => hend (by rw [h]; rfl)
        rw [length_cons] at hn
        exact ih h.tail (by omega) w ((mem_cons.mp heof).resolve_left (Ne.symm hne))

/-! ## The parts of a call -/

def viewCopyin (target : Target) (i : CopyinInstr) : ExecCopyin :=
  { addr := i.addr + target.dataOffset, arg := viewArg target i.arg }

/-- Properties as the executor gets them. -/
def receivedProps : Option CallProps → CallProps
  | none => .zero
  | some props =>
    { props with
      failNth := cInt (UInt64.ofInt props.failNth)
      rerun := cInt (UInt64.ofInt props.rerun) }

/-- A call as the executor sees it. -/
def viewCall (target : Target) (e : EncodedCall) : ExecCall :=
  { callMeta := target.syscalls[e.id.toNat]?
    props := receivedProps e.props
    index := e.copyoutIdx
    args := e.args.map (viewArg target)
    copyin := e.copyin.map (viewCopyin target)
    copyout := e.copyout.map (CopyoutInstr.decode target) }

lemma isCallArg_eq_isScalar (arg : InstrArg) : isCallArg arg = arg.isScalar := by
  cases arg <;> rfl

lemma walkAll_copyin (w : Walk) (l : List CopyinInstr) (rest : List Instr) :
    walkAll target w (l.map .copyin ++ rest) =
      walkAll target { w with copyin := w.copyin ++ l.map (viewCopyin target) } rest := by
  induction l generalizing w with
  | nil => simp
  | cons i l ih =>
    rw [map_cons, cons_append, walkAll, if_neg (by simp [received])]
    show walkAll target { w with copyin := w.copyin ++ [viewCopyin target i] } _ = _
    rw [ih, append_assoc]
    rfl

lemma walkAll_setProps {w : Walk} (hw : w.props = .zero) (props : Option CallProps)
    (rest : List Instr) :
    walkAll target w (props.toList.map .setProps ++ rest) =
      walkAll target { w with props := receivedProps props } rest := by
  cases props with
  | none =>
    show walkAll target w rest = walkAll target { w with props := .zero } rest
    rw [← hw]
  | some props =>
    rfl

lemma walkAll_copyout (w : Walk) (l : List CopyoutInstr) (rest : List Instr) :
    walkAll target w (l.map .copyout ++ rest) = walkAll target w rest := by
  induction l generalizing w with
  | nil => rfl
  | cons i l ih =>
    exact ih w

lemma walkAll_config (w : Walk) (actions : List KConfuzzConfigAction) (rest : List Instr) :
    walkAll target w (writeKConfuzzConfigActions actions ++ rest) =
      walkAll target
        { w with actions := w.actions ++ actions.map fun a => a.toExec w.calls.length } rest := by
  induction actions generalizing w with
  | nil => simp [writeKConfuzzConfigActions]
  | cons a actions ih =>
    unfold writeKConfuzzConfigActions at ih ⊢
    rw [map_cons, cons_append, walkAll, if_neg (by simp [received])]
    show walkAll target { w with actions := w.actions ++ [a.toExec w.calls.length] } _ = _
    rw [ih, append_assoc]
    rfl

lemma leadingCopyouts_append (l : List CopyoutInstr) (rest : List Instr) :
    leadingCopyouts (l.map .copyout ++ rest) = l ++ leadingCopyouts rest := by
  induction l with
  | nil => rfl
  | cons i l ih => rw [map_cons, cons_append, leadingCopyouts, ih, cons_append]

/-- No copyout stands before its call. -/
lemma leadingCopyouts_interleave (actions : List KConfuzzConfigAction) (i : ℕ)
    (es : List EncodedCall) : leadingCopyouts (interleave actions i es ++ [.eof]) = [] := by
  have hconfig : ∀ l rest, leadingCopyouts rest = [] →
      leadingCopyouts (writeKConfuzzConfigActions l ++ rest) = [] := by
    intro l rest hrest
    cases l with
    | nil => exact hrest
    | cons a l => rfl
  cases es with
  | nil => exact hconfig _ _ rfl
  | cons e es =>
    rw [interleave, append_assoc, append_assoc]
    apply hconfig
    unfold instrs
    cases e.copyin with
    | cons i copyin => rfl
    | nil =>
      cases e.props with
      | some props => rfl
      | none => rfl

/-- `copyout_call_results` gets the copyouts of its call, and no more. -/
lemma copyoutsAt_behind {copyouts : List CopyoutInstr} {rest : List Instr}
    (h : ReadableAll target (copyouts.map .copyout ++ rest)) (heof : .eof ∈ rest)
    (hrest : leadingCopyouts rest = []) :
    copyoutsAt (encodeAll (copyouts.map .copyout ++ rest)) = .ok copyouts := by
  rw [copyoutsAt_encodeAll h (mem_append_right _ heof), leadingCopyouts_append, hrest, append_nil]

/-! ## Whole buffers -/

/-- Between two calls. -/
def Walk.between (calls : List ExecCall) (actions : List ExecKConfuzzConfigAction) : Walk :=
  { copyin := [], props := .zero, calls, actions }

section Buffer

variable {calls : List ExecCall} {actions : List ExecKConfuzzConfigAction} {e : EncodedCall}
  {rest : List Instr} (h : ReadableAll target (e.instrs ++ rest)) (heof : .eof ∈ rest)
  (hrest : leadingCopyouts rest = []) (hid : e.id.toNat < target.syscalls.length)

include h heof hrest hid

lemma walkAll_instrs (hscalar : e.Scalar) :
    walkAll target (.between calls actions) (e.instrs ++ rest) =
      walkAll target (.between (calls ++ [viewCall target e]) actions) rest := by
  unfold instrs at h ⊢
  rw [append_assoc, append_assoc] at h ⊢
  have hbehind := copyoutsAt_behind h.append_right.append_right.tail heof hrest
  have hargs : ¬ e.args.all isCallArg = false := by
    simp only [Bool.not_eq_false, all_eq_true, isCallArg_eq_isScalar]
    exact hscalar
  rw [walkAll_copyin, walkAll_setProps rfl, cons_append, walkAll, if_neg (by simp [received])]
  simp only [received, walkInstr, failIf, if_neg (not_le.mpr hid), if_neg hargs, hbehind, bind,
    Except.bind, pure, Except.pure]
  rw [walkAll_copyout]
  rfl

omit h heof hrest in
lemma walkAll_instrs_error (hscalar : ¬ e.Scalar) :
    walkAll target (.between calls actions) (e.instrs ++ rest) = .error "bad argument type" := by
  unfold instrs
  rw [append_assoc, append_assoc]
  have hargs : e.args.all isCallArg = false := by
    simp only [all_eq_false, isCallArg_eq_isScalar]
    simpa [EncodedCall.Scalar] using hscalar
  rw [walkAll_copyin, walkAll_setProps rfl, cons_append, walkAll, if_neg (by simp [received])]
  simp only [received, walkInstr, failIf, if_neg (not_le.mpr hid), if_pos hargs, bind, Except.bind]

end Buffer

/-- The walk over the calls of a program from one of them on. -/
lemma walkAll_interleave {actions : List KConfuzzConfigAction} {es : List EncodedCall}
    {calls : List ExecCall} (hids : ∀ e ∈ es, e.id.toNat < target.syscalls.length)
    (h : ReadableAll target (interleave actions calls.length es ++ [.eof]))
    (done : List ExecKConfuzzConfigAction) :
    ((∀ e ∈ es, e.Scalar) →
      walkAll target (.between calls done) (interleave actions calls.length es ++ [.eof]) =
        .ok (.between (calls ++ es.map (viewCall target))
          (done ++ execActions actions calls.length es.length))) ∧
    ∀ e ∈ es, ¬ e.Scalar →
      walkAll target (.between calls done) (interleave actions calls.length es ++ [.eof]) =
        .error "bad argument type" := by
  induction es generalizing calls done with
  | nil =>
    refine ⟨fun _ => ?_, by simp⟩
    rw [interleave, walkAll_config, walkAll, if_pos (show received .eof = .eof from rfl)]
    simp [Walk.between, execActions]
  | cons first es ih =>
    rw [forall_mem_cons] at hids
    rw [interleave, append_assoc, append_assoc] at h ⊢
    have htail := h.append_right.append_right
    have hlen : (calls ++ [viewCall target first]).length = calls.length + 1 := by simp
    rw [walkAll_config]
    show (_ → walkAll target (.between calls _) _ = _) ∧
      ∀ e ∈ _, _ → walkAll target (.between calls _) _ = _
    by_cases hfirst : first.Scalar
    · rw [walkAll_instrs h.append_right (by simp) (leadingCopyouts_interleave _ _ _) hids.1
        hfirst, ← hlen]
      obtain ⟨hok, herror⟩ := ih hids.2 (by rwa [hlen]) _
      refine ⟨fun hscalar => ?_, fun e he hnot => ?_⟩
      · rw [hok (forall_mem_cons.mp hscalar).2, hlen]
        simp only [Walk.between, execActions, map_cons, append_assoc, singleton_append,
          length_cons, range'_succ, flatMap_cons]
      · rcases mem_cons.mp he with rfl | hmem
        · exact absurd hfirst hnot
        · exact herror e hmem hnot
    · exact ⟨fun hscalar => absurd (hscalar first mem_cons_self) hfirst,
        fun _ _ _ => walkAll_instrs_error hids.1 hfirst⟩

section Serialized

variable {es : List EncodedCall} (hreadable : ∀ e ∈ es, e.Readable target)
  (actions : List KConfuzzConfigAction) (hfits : (encodeBuffer actions es).length < 2 ^ 63)

include hreadable hfits

lemma readableAll_interleave : ReadableAll target (interleave actions 0 es ++ [.eof]) where
  readable := forall_mem_append.mpr
    ⟨readable_interleave hreadable actions, forall_mem_singleton.mpr trivial⟩
  fits := by
    rw [encodeBuffer, length_append] at hfits
    omega

/-- The walk of a buffer is the walk of its instructions. -/
lemma walk_eq_walkAll : walk target (encodeBuffer actions es) =
    walkAll target (Walk.between [] []) (interleave actions 0 es ++ [Instr.eof]) := by
  have hread := readableAll_interleave hreadable actions hfits
  let instrs := interleave actions 0 es ++ [Instr.eof]
  have hlen : instrs.length < (encodeBuffer actions es).length := by
    have hinstrs : instrs.length ≤ (encodeAll instrs).length :=
      length_le_length_flatMap Instr.encode_length_pos _
    have hcount : 0 < (write (wordLength es)).length := appendVarint_length_pos _
    have hsplit : (encodeBuffer actions es).length = (write (wordLength es)).length +
        (encodeAll instrs).length := length_append
    omega
  rw [walk]
  nth_rewrite 1 [encodeBuffer]
  rw [parses_readInput (wordLength es) (encodeAll _)]
  exact walkLoop_encodeAll hread hlen _ (by simp)

/-- What the executor comes across in a buffer. -/
lemma walk_encodeBuffer :
    ((∀ e ∈ es, e.Scalar) → walk target (encodeBuffer actions es) =
      .ok (.between (es.map (viewCall target)) (execActions actions 0 es.length))) ∧
    ∀ e ∈ es, ¬ e.Scalar →
      walk target (encodeBuffer actions es) = .error "bad argument type" := by
  rw [walk_eq_walkAll hreadable actions hfits]
  exact @walkAll_interleave target actions es [] (fun e he => (hreadable e he).id_lt)
    (readableAll_interleave hreadable actions hfits) []

end Serialized

/-! ## Where the two could differ -/

open ExecDecoder (propInt)

/-- The value, as a 64-bit integer, is one of an `int`. -/
def FitsInt (x : ℤ) : Prop := -2 ^ 31 ≤ x.bmod (2 ^ 64) ∧ x.bmod (2 ^ 64) < 2 ^ 31

instance (x : ℤ) : Decidable (FitsInt x) := inferInstanceAs (Decidable (_ ∧ _))

lemma propInt_eq_bmod (w : UInt64) : propInt w = (w.toNat : ℤ).bmod (2 ^ 64) := by
  show w.toBitVec.toInt = _
  rw [BitVec.toInt_eq_toNat_bmod]
  rfl

lemma cInt_eq_bmod (w : UInt64) : cInt w = (w.toNat : ℤ).bmod (2 ^ 32) := by
  show w.toUInt32.toBitVec.toInt = _
  rw [BitVec.toInt_eq_toNat_bmod]
  show (w.toUInt32.toNat : ℤ).bmod _ = _
  rw [UInt64.toNat_toUInt32, Int.natCast_mod]
  exact Int.emod_bmod _ _

lemma propInt_ofInt (x : ℤ) : propInt (UInt64.ofInt x) = x.bmod (2 ^ 64) := by
  have hnonneg : 0 ≤ x % 2 ^ 64 := Int.emod_nonneg _ (by decide)
  have hnat : (UInt64.ofInt x).toNat = (x % 2 ^ 64).toNat := by
    rw [UInt64.ofInt, UInt64.toNat_ofNat', Nat.mod_eq_of_lt (by omega)]
  rw [propInt_eq_bmod, hnat, Int.toNat_of_nonneg hnonneg]
  exact Int.emod_bmod x (2 ^ 64)

/-- The conversion to `int` keeps the value. -/
lemma cInt_eq_propInt_iff (x : ℤ) :
    cInt (UInt64.ofInt x) = propInt (UInt64.ofInt x) ↔ FitsInt x := by
  rw [FitsInt, ← propInt_ofInt]
  rw [cInt_eq_bmod, propInt_eq_bmod]
  simp only [Int.bmod_def]
  omega

lemma receivedProps_eq_iff (props : CallProps) :
    receivedProps (some props) = decodeProps (some props) ↔
      FitsInt props.failNth ∧ FitsInt props.rerun := by
  have hasync : (boolWord props.async == 1) = props.async := by
    cases props.async <;> rfl
  rw [receivedProps, decodeProps, hasync, CallProps.mk.injEq, cInt_eq_propInt_iff,
    cInt_eq_propInt_iff]
  simp

/-- The first word of a written result. -/
def InstrArg.resultInfo? : InstrArg → Option UInt64
  | .result info _ _ _ _ => some info
  | _ => none

/-- The first word that a reference is written with. -/
def refInfo (r : ResultArg) : Option UInt64 :=
  r.res.map fun _ => r.typ.typeSize ||| r.typ.argFormat.toUInt64 <<< 8

lemma and_byte_eq_self_iff (x : UInt64) : x &&& 0xff = x ↔ x.toNat < 256 := by
  have hmask : (0xff : UInt64).toNat = 2 ^ 8 - 1 := rfl
  rw [← UInt64.toNat_inj, UInt64.toNat_and, hmask, Nat.and_two_pow_sub_one_eq_mod]
  omega

/-- The format of a reference takes eight bits unless the size spills over it. -/
lemma format_eq_iff (size : UInt64) (format : BinaryFormat) :
    (size ||| format.toUInt64 <<< 8) >>> 8 = ((size ||| format.toUInt64 <<< 8) >>> 8) &&& 0xff ↔
      size.toNat < 2 ^ 16 := by
  have hformat : (format.toUInt64 <<< 8).toNat < 2 ^ 16 := by
    cases format <;> decide
  rw [eq_comm, and_byte_eq_self_iff, UInt64.toNat_shiftRight]
  show (size ||| format.toUInt64 <<< 8).toNat >>> 8 < 256 ↔ _
  rw [UInt64.toNat_or, Nat.shiftRight_eq_div_pow, Nat.div_lt_iff_lt_mul (by decide)]
  constructor
  · intro h
    exact lt_of_le_of_lt Nat.left_le_or h
  · intro h
    exact Nat.or_lt_two_pow h hformat

lemma viewArg_eq_decode_iff (arg : InstrArg) :
    viewArg target arg = arg.decode target ↔
      ∀ info, InstrArg.resultInfo? arg = some info → info >>> 8 = (info >>> 8) &&& 0xff := by
  cases arg with
  | result info idx opDiv opAdd default => simp [viewArg, InstrArg.decode, InstrArg.resultInfo?]
  | csum size kind chunks =>
    simp only [InstrArg.resultInfo?, reduceCtorEq, false_imp_iff, implies_true, iff_true]
    rfl
  | _ => simp [viewArg, InstrArg.decode, InstrArg.resultInfo?]

/-! ## Words of references -/

lemma resultInfo?_of_writtenAs {w : ExecContext} {arg : Arg} {written : InstrArg}
    (h : WrittenAs w arg written) :
    InstrArg.resultInfo? written = arg.passedResult.bind refInfo := by
  induction h with
  | value hres | ref hres _ => simp [InstrArg.resultInfo?, Arg.passedResult, refInfo, hres]
  | union _ ih => exact ih
  | _ => rfl

lemma resultInfos_mapM_writeArg {w : ExecContext} {args : List Arg} {written : List InstrArg}
    (h : args.mapM (writeArg target w) = .ok written) :
    written.filterMap InstrArg.resultInfo? =
      (args.filterMap Arg.passedResult).filterMap refInfo := by
  rw [filterMap_of_forall₂ (forall₂_of_mapM h) fun arg i hwritten =>
    resultInfo?_of_writtenAs (writtenAs_of_writeArg hwritten), filterMap_filterMap]

lemma resultInfos_writeCopyin {sums : Checksums} {w w' : ExecContext} {c : Call}
    (h : writeCopyin target sums w c = .ok (out, w')) :
    out.filterMap (InstrArg.resultInfo? ·.arg) =
      ((foreachArg c).filterMap copiedResult).filterMap refInfo := by
  obtain ⟨-, hout⟩ :=
    emitAll_copyinArg_rule (I := fun _ => True) (fun _ _ _ _ _ => trivial) trivial h
  rw [filterMap_of_forall₂ hout fun visit i ⟨⟨w, _, hwritten⟩, _⟩ =>
    resultInfo?_of_writtenAs (writtenAs_of_writeArg hwritten), filterMap_copiedResult,
    filterMap_filterMap]

/-! ## Calls -/

section Call

variable {env : ExecEnv} {w w' : ExecContext} {c : Call} {e : EncodedCall}

/-- The parts of a written call that the two readers may see differently. -/
lemma serializeCall_parts (h : serializeCall env target w c = .ok (e, w')) :
    e.argList.filterMap InstrArg.resultInfo? = c.serializedResults.filterMap refInfo ∧
      e.props = (if c.callMeta.kfuzzTest ∨ c.props = .zero then none else some c.props) ∧
      (e.Scalar ↔ ∀ arg ∈ c.args, ¬ arg.isBuffer) := by
  cases hkfuzz : c.callMeta.kfuzzTest with
  | true =>
    obtain ⟨sums, -, h⟩ := bind_eq_ok_iff.1 h
    rw [if_pos hkfuzz] at h
    obtain ⟨runID, copyin, blob, args, args', -, hcopyin, hblob, hargs, rfl⟩ :=
      serializeKFuzzTestCall_eq_ok h
    obtain ⟨hdata, hpassed, hbuffer⟩ := kFuzzTestBlob_eq_ok hblob
    refine ⟨?_, by simp, (mapM_writeArg_kind hargs).2.trans hbuffer⟩
    have hnone := filterMap_of_data (g := InstrArg.resultInfo?) (fun _ => rfl) hdata
    have hread := resultInfos_mapM_writeArg hargs
    rw [hpassed] at hread
    simp only [argList, Call.serializedResults, hkfuzz, if_true, map_append,
      filterMap_append, filterMap_map, Function.comp_def, hnone, hread,
      resultInfos_writeCopyin hcopyin, append_nil]
  | false =>
    obtain ⟨k, hk, rfl⟩ := serializeCall_eq_ok hkfuzz h
    obtain ⟨w₁, w₂, -, hcopyin, -, -, hargs, -, -, hprops⟩ := skeleton_eq_ok hk
    refine ⟨?_, by simp [CallSkeleton.fill, hprops], (mapM_writeArg_kind hargs).2⟩
    have hsums := filterMap_writeChecksums (g := InstrArg.resultInfo?) (fun _ _ _ => rfl) env
      k.sums k.addr
    simp only [CallSkeleton.fill, argList, Call.serializedResults, hkfuzz, Bool.false_eq_true,
      if_false, map_append, filterMap_append, filterMap_map, Function.comp_def, hsums,
      resultInfos_mapM_writeArg hargs, resultInfos_writeCopyin hcopyin, append_nil,
      Call.writtenResults]

lemma viewCall_eq_decode_iff :
    viewCall target e = e.decode target ↔ receivedProps e.props = decodeProps e.props ∧
      ∀ info ∈ e.argList.filterMap InstrArg.resultInfo?, info >>> 8 = (info >>> 8) &&& 0xff := by
  have hargs : (∀ info ∈ e.argList.filterMap InstrArg.resultInfo?,
      info >>> 8 = (info >>> 8) &&& 0xff) ↔
        ∀ arg ∈ e.argList, viewArg target arg = arg.decode target := by
    simp only [viewArg_eq_decode_iff, mem_filterMap, forall_exists_index, and_imp]
    exact ⟨fun h arg harg info => h info arg harg, fun h info arg harg => h arg harg info⟩
  have hcopyin : ∀ i : CopyinInstr, viewCopyin target i = i.decode target ↔
      viewArg target i.arg = i.arg.decode target := by
    simp [viewCopyin, CopyinInstr.decode]
  rw [hargs, viewCall, decode, ExecCall.mk.injEq]
  simp only [true_and, and_true, map_inj_left, hcopyin, argList, forall_mem_append, forall_mem_map]
  exact ⟨fun h => ⟨h.1, h.2.2, h.2.1⟩, fun h => ⟨h.1, h.2.2, h.2.1⟩⟩

/-- A call looks the same to both sides if its properties and sizes fit. -/
lemma viewCall_eq_decode_iff_of_serializeCall (h : serializeCall env target w c = .ok (e, w')) :
    viewCall target e = e.decode target ↔
      (¬ c.callMeta.kfuzzTest → FitsInt c.props.failNth ∧ FitsInt c.props.rerun) ∧
        ∀ r ∈ c.serializedResults, r.res.isSome → r.typ.typeSize.toNat < 2 ^ 16 := by
  obtain ⟨hinfos, hprops, -⟩ := serializeCall_parts h
  rw [viewCall_eq_decode_iff, hinfos, hprops]
  apply and_congr
  · by_cases hkfuzz : c.callMeta.kfuzzTest
    · simp [hkfuzz, receivedProps, decodeProps]
    by_cases hzero : c.props = .zero
    · have hfits : FitsInt CallProps.zero.failNth ∧ FitsInt CallProps.zero.rerun := by decide
      simp [hzero, receivedProps, decodeProps, hfits]
    · simp [hkfuzz, hzero, receivedProps_eq_iff]
  · simp only [mem_filterMap, refInfo, Option.map_eq_some_iff, forall_exists_index, and_imp,
      Option.isSome_iff_exists]
    constructor
    · intro hall r hr id hid
      exact (format_eq_iff _ _).mp (hall _ r hr id hid rfl)
    · intro hall info r hr id hid hinfo
      rw [← hinfo]
      exact (format_eq_iff _ _).mpr (hall r hr id hid)

end Call

/-! ## Programs -/

/-- The executor and `DeserializeExec` get the same calls and config actions out of a buffer. -/
def Agree (target : Target) (buf : List UInt8) : Prop :=
  ∃ w prog, walk target buf = .ok w ∧ deserializeExec target buf = .ok prog ∧
    w.calls = prog.calls ∧ w.actions = prog.kconfuzzActions

/-- Properties of calls are in the range of an `int`. -/
def PropsFitInt (p : Prog) : Prop :=
  ∀ c ∈ p.calls, ¬ c.callMeta.kfuzzTest → FitsInt c.props.failNth ∧ FitsInt c.props.rerun

/-- No reference that is written has a size that spills over its format. -/
def ResultsFit (p : Prog) : Prop :=
  ∀ c ∈ p.calls, ∀ r ∈ c.serializedResults, r.res.isSome → r.typ.typeSize.toNat < 2 ^ 16

/-- Both sides agree on a buffer if they agree on every call. -/
lemma agree_encodeBuffer_iff {es : List EncodedCall} (hreadable : ∀ e ∈ es, e.Readable target)
    (actions : List KConfuzzConfigAction) (hfits : (encodeBuffer actions es).length < 2 ^ 63) :
    Agree target (encodeBuffer actions es) ↔
      (∀ e ∈ es, e.Scalar ∧ viewCall target e = e.decode target) ∧
        wordLength (es.foldl (ExecDecoder.addCall target) .init).vars =
          (es.foldl (ExecDecoder.addCall target) .init).numVars := by
  obtain ⟨hwalk, herror⟩ := walk_encodeBuffer hreadable actions hfits
  by_cases hscalar : ∀ e ∈ es, e.Scalar
  · specialize hwalk hscalar
    have hdecode := deserializeExec_encodeBuffer hreadable actions hfits hscalar
    have hcalls : (es.foldl (ExecDecoder.addCall target) .init).calls = es.map (decode target) := by
      rw [calls_foldl_addCall]
      rfl
    generalize es.foldl (ExecDecoder.addCall target) .init = dec at hdecode hcalls ⊢
    by_cases hvars : wordLength dec.vars = dec.numVars
    · have hfinish : deserializeExec target (encodeBuffer actions es) = .ok _ :=
        hdecode.trans (if_neg (not_not.mpr hvars))
      constructor
      · intro ⟨w, prog, hw, hprog, hsame, _⟩
        rw [hwalk] at hw
        rw [hfinish] at hprog
        cases hw
        cases hprog
        have hmap : es.map (viewCall target) = es.map (decode target) := by
          rw [← hcalls]
          exact hsame
        exact ⟨fun e he => ⟨hscalar e he, map_inj_left.mp hmap e he⟩, hvars⟩
      · rintro ⟨h, -⟩
        refine ⟨_, _, hwalk, hfinish, ?_, rfl⟩
        show es.map (viewCall target) = dec.calls
        rw [hcalls]
        exact map_congr_left fun e he => (h e he).2
    · -- the decoder misses a variable
      refine iff_of_false ?_ fun h => hvars h.2
      intro ⟨w, prog, _, hprog, _⟩
      rw [hdecode.trans (if_pos hvars)] at hprog
      cases hprog
  · obtain ⟨e, he, hbad⟩ : ∃ e ∈ es, ¬ e.Scalar := by simpa using hscalar
    refine iff_of_false ?_ fun h => hbad (h.1 e he).1
    intro ⟨w, prog, hw, _⟩
    rw [herror e he hbad] at hw
    cases hw

/-- In the buffer of a valid program, the decoder finds all variables exactly when the last index
is read. -/
lemma wordLength_vars_eq_iff_lastIndexRead {p : Prog} {env : ExecEnv} {es : List EncodedCall}
    {w : ExecContext} (hvalid : p.validate = .ok ())
    (hencode : encodeCalls env p.target .init p.calls = .ok (es, w))
    (hmax : w.copyoutSeq ≤ execMaxCommands) :
    wordLength (es.foldl (ExecDecoder.addCall target) .init).vars =
      (es.foldl (ExecDecoder.addCall target) .init).numVars ↔ p.LastIndexRead := by
  obtain ⟨hindexed, hseq⟩ := indexed_of_encodeCalls bounded_init p.callMeta_mem
    (newCalls_init (validOrder_of_validate hvalid)) hencode hmax
  rw [length_nil, Nat.zero_add] at hseq
  rw [Prog.LastIndexRead, ← length_indexedIds]
  exact wordLength_vars_eq_iff_of_idxs (hseq ▸ hmax) hindexed.producedIdxs_eq
    hindexed.readIdxs_eq readIndices_le

/-- Behind a call of a buffer `copyout_call_results` reads the copyouts that follow, up to the next
instruction of another kind. -/
lemma copyoutsAt_of_split {instrs front : List Instr} {id idx : UInt64} {args : List InstrArg}
    {copyouts : List CopyoutInstr} {rest : List Instr} (h : ReadableAll target (instrs ++ [.eof]))
    (hsplit : instrs ++ [.eof] = front ++ .call id idx args :: (copyouts.map .copyout ++ rest))
    (hrest : ∀ i, rest.head? ≠ some (.copyout i)) :
    copyoutsAt (encodeAll (copyouts.map .copyout ++ rest)) = .ok copyouts := by
  have hread : ReadableAll target (copyouts.map .copyout ++ rest) := by
    rw [hsplit] at h
    exact h.append_right.tail
  have heof : .eof ∈ rest := by
    have hlast : (instrs ++ [Instr.eof]).getLast? = some .eof := by simp
    rw [hsplit, ← cons_append, ← append_assoc, getLast?_append] at hlast
    cases hr : rest.getLast? with
    | none =>
      -- the last instruction would be the call or a copyout
      rw [hr, Option.none_or, getLast?_append_of_ne_nil _ (cons_ne_nil _ _)] at hlast
      have hmem := mem_of_getLast? hlast
      simp at hmem
    | some last =>
      rw [hr, Option.some_or] at hlast
      rw [← Option.some.inj hlast]
      exact mem_of_getLast? hr
  refine copyoutsAt_behind hread heof ?_
  cases rest with
  | nil => rfl
  | cons instr rest =>
    cases instr with
    | copyout i => exact absurd rfl (hrest i)
    | _ => rfl

/-- `r0 = test$res0() (fail_nth: n)`, `test$res1(r0)` -/
def failNthProg (n : ℤ) : Prog :=
  { target := resTarget
    calls := [{ res0Call 1 with props := { failNth := n, async := false, rerun := 0 } },
      { callMeta := { id := 1, name := "test$res1" }, args := [useRes0 1 .dirIn]
        ret := none, props := .zero }]
    callMeta_mem := by
      simp only [forall_mem_cons]
      decide }

end KConfuzz.Executor
