import KConfuzz.Exec.DecodingTheorems
import KConfuzz.Exec.Encoding

/-!
# The decoder on whole calls

A call is only committed by the instruction after its last one. Instructions other than copyouts
commit what came before them first, and what a call writes starts with such an instruction; so
the decoder can be followed from one committed state to the next: a call adds the decoded call
(`commitCall_foldl_instrs`), and config actions before it only add themselves
(`commitCall_foldl_config`).
-/

namespace KConfuzz

open ExecDecoder Lib.ExceptFold Lib.Parser List EncodedCall

variable {target : Target} {e : EncodedCall} {dec : ExecDecoder}

/-! ## Decoded calls -/

def decodeProps : Option CallProps → CallProps
  | none => .zero
  | some props =>
    { failNth := propInt (UInt64.ofInt props.failNth), async := boolWord props.async == 1
      rerun := propInt (UInt64.ofInt props.rerun) }

def CopyinInstr.decode (target : Target) (i : CopyinInstr) : ExecCopyin :=
  { addr := i.addr + target.dataOffset, arg := i.arg.decode target }

def CopyoutInstr.decode (target : Target) (i : CopyoutInstr) : ExecCopyout :=
  { index := i.idx, addr := i.addr + target.dataOffset, size := i.size }

def EncodedCall.decode (target : Target) (e : EncodedCall) : ExecCall :=
  { callMeta := target.syscalls[e.id.toNat]?
    props := decodeProps e.props
    index := e.copyoutIdx
    args := e.args.map (InstrArg.decode target)
    copyin := e.copyin.map (CopyinInstr.decode target)
    copyout := e.copyout.map (CopyoutInstr.decode target) }

/-- All arguments of a call, in the order in which they are read. -/
def EncodedCall.argList (e : EncodedCall) : List InstrArg := e.copyin.map (·.arg) ++ e.args

namespace ExecDecoder

/-- A committed decoder after one more call. -/
def addCall (target : Target) (dec : ExecDecoder) (e : EncodedCall) : ExecDecoder :=
  { dec with
    numVars := countVars dec.numVars (e.decode target)
    vars := (e.argList.map (InstrArg.decode target)).foldl setVar dec.vars
    calls := dec.calls ++ [e.decode target] }

lemma foldl_recordVar (dec : ExecDecoder) (args : List ExecArg) :
    args.foldl recordVar dec = { dec with vars := args.foldl setVar dec.vars } :=
  foldl_hom (fun vars => { dec with vars }) fun _ _ => rfl

lemma commitCall_of_none (h : dec.call.callMeta = none) : dec.commitCall = dec := if_pos h

lemma callMeta_commitCall (dec : ExecDecoder) : dec.commitCall.call.callMeta = none := by
  by_cases h : dec.call.callMeta = none
  · rw [commitCall_of_none h, h]
  · rw [commitCall, if_neg h]
    rfl

/-! ## The parts of a call -/

lemma commitCall_foldl_copyin (target : Target) (dec : ExecDecoder) (l : List CopyinInstr) :
    ((l.map Instr.copyin).foldl (exec target) dec).commitCall =
      { dec.commitCall with
        vars := (l.map fun i => i.arg.decode target).foldl setVar dec.commitCall.vars
        call.copyin := dec.commitCall.call.copyin ++ l.map (CopyinInstr.decode target) } := by
  induction l generalizing dec with
  | nil => simp
  | cons i l ih =>
    -- the call under construction has no number yet, so there is nothing more to commit
    have hstep : (dec.exec target (.copyin i)).commitCall = dec.exec target (.copyin i) :=
      commitCall_of_none (callMeta_commitCall dec)
    rw [map_cons, foldl_cons, ih, hstep]
    simp [exec, recordVar, CopyinInstr.decode]

lemma commitCall_foldl_setProps (target : Target) (dec : ExecDecoder)
    (props : Option CallProps) (hzero : dec.commitCall.call.props = .zero) :
    ((props.toList.map Instr.setProps).foldl (exec target) dec).commitCall =
      { dec.commitCall with call.props := decodeProps props } := by
  cases props with
  | none =>
    have : decodeProps none = dec.commitCall.call.props := hzero.symm
    rw [this]
    rfl
  | some props =>
    have hstep : (dec.exec target (.setProps props)).commitCall =
        dec.exec target (.setProps props) := commitCall_of_none (callMeta_commitCall dec)
    simp only [Option.toList_some, map_cons, map_nil, foldl_cons, foldl_nil, hstep]
    simp [exec, hzero, decodeProps, CallProps.zero]

lemma foldl_copyout (dec : ExecDecoder) (l : List CopyoutInstr) :
    (l.map Instr.copyout).foldl (exec target) dec =
      { dec with call.copyout := dec.call.copyout ++ l.map (CopyoutInstr.decode target) } := by
  induction l generalizing dec with
  | nil => simp
  | cons i l ih =>
    rw [map_cons, foldl_cons, ih]
    simp [exec, CopyoutInstr.decode]

/-- A call adds the decoded call to what was committed. -/
lemma commitCall_foldl_instrs (hidle : dec.commitCall.call = .zero)
    (hid : e.id.toNat < target.syscalls.length) :
    (e.instrs.foldl (exec target) dec).commitCall = dec.commitCall.addCall target e := by
  unfold instrs
  rw [foldl_append, foldl_append, foldl_cons, foldl_copyout]
  have hcopyin := commitCall_foldl_copyin target dec e.copyin
  generalize (e.copyin.map Instr.copyin).foldl (exec target) dec = copyins at hcopyin ⊢
  have hprops := commitCall_foldl_setProps target copyins e.props (by
    rw [hcopyin]
    simp [hidle, ExecCall.zero])
  rw [hcopyin] at hprops
  -- the call itself starts from this state, and its number makes it ready to be committed
  simp only [exec, hprops, foldl_recordVar, getElem?_eq_getElem hid]
  simp only [addCall, decode, argList, hidle, ExecCall.zero,
    getElem?_eq_getElem hid, map_append, foldl_append, map_map, nil_append]
  rfl

/-! ## Config actions -/

/-- Config actions commit the call before them and leave the rest alone. -/
lemma commitCall_foldl_config (target : Target) (dec : ExecDecoder)
    (actions : List KConfuzzConfigAction) :
    ((writeKConfuzzConfigActions actions).foldl (exec target) dec).commitCall =
      { dec.commitCall with
        kconfuzzActions := dec.commitCall.kconfuzzActions ++ actions.map fun a =>
          { beforeCall := wordLength dec.commitCall.calls, paramID := a.paramID
            valueID := a.valueID, flags := a.flags } } := by
  induction actions generalizing dec with
  | nil => simp [writeKConfuzzConfigActions]
  | cons a actions ih =>
    have hstep : ∀ i, (dec.exec target (.kconfuzzConfig i)).commitCall =
        dec.exec target (.kconfuzzConfig i) := fun i => commitCall_of_none (callMeta_commitCall dec)
    unfold writeKConfuzzConfigActions at ih ⊢
    rw [map_cons, foldl_cons, ih, hstep]
    simp [exec]

end ExecDecoder

/-! ## Programs -/

/-- The calls of a program as they are written, without the config actions. -/
def encodeCalls (env : ExecEnv) (target : Target) :
    ExecContext → List Call → Except ExecError (List EncodedCall × ExecContext) :=
  mapAccumM (serializeCall env target)

/-- The instructions of a program from the `i`-th call on. -/
def interleave (actions : List KConfuzzConfigAction) : ℕ → List EncodedCall → List Instr
  | i, [] => writeKConfuzzConfigActions (actionsByCall actions i)
  | i, e :: es =>
    writeKConfuzzConfigActions (actionsByCall actions i) ++ e.instrs ++ interleave actions (i + 1) es

/-- The actions are written between the calls and change nothing about them. -/
lemma serializeCalls_eq (env : ExecEnv) (target : Target)
    (actions : List KConfuzzConfigAction) (i : ℕ) (w : ExecContext) (calls : List Call) :
    serializeCalls env target actions i w calls =
      (encodeCalls env target w calls).map fun r => (interleave actions i r.1, r.2) := by
  induction calls generalizing i w with
  | nil => rfl
  | cons c calls ih =>
    simp only [serializeCalls, encodeCalls, mapAccumM] at ih ⊢
    cases serializeCall env target w c with
    | error err => rfl
    | ok r =>
      simp only [bind, Except.bind, ih]
      cases mapAccumM _ r.2 calls with
      | error err => rfl
      | ok r' => rfl

/-- A decoded config action before the `i`-th call. -/
def KConfuzzConfigAction.toExec (i : ℕ) (a : KConfuzzConfigAction) : ExecKConfuzzConfigAction :=
  { beforeCall := UInt64.ofNat i, paramID := a.paramID, valueID := a.valueID, flags := a.flags }

/-- The actions decoded from `n` calls, the first of them the `i`-th. -/
def execActions (actions : List KConfuzzConfigAction) (i n : ℕ) : List ExecKConfuzzConfigAction :=
  (List.range' i (n + 1)).flatMap fun j => (actionsByCall actions j).map (·.toExec j)

lemma foldl_addCall_actions (target : Target) (dec : ExecDecoder) (es : List EncodedCall)
    (actions : List ExecKConfuzzConfigAction) :
    es.foldl (addCall target) { dec with kconfuzzActions := actions } =
      { es.foldl (addCall target) dec with kconfuzzActions := actions } :=
  foldl_hom (fun dec : ExecDecoder => { dec with kconfuzzActions := actions }) fun _ _ => rfl

lemma calls_foldl_addCall (target : Target) (dec : ExecDecoder) (es : List EncodedCall) :
    (es.foldl (addCall target) dec).calls = dec.calls ++ es.map (decode target) := by
  induction es generalizing dec with
  | nil => simp
  | cons e es ih =>
    rw [foldl_cons, ih]
    simp [addCall]

/-- The decoder collects calls and actions independently. -/
lemma commitCall_foldl_interleave (actions : List KConfuzzConfigAction) {es : List EncodedCall}
    (hids : ∀ e ∈ es, e.id.toNat < target.syscalls.length) (hidle : dec.commitCall.call = .zero) :
    ((interleave actions dec.commitCall.calls.length es).foldl (exec target) dec).commitCall =
      { es.foldl (addCall target) dec.commitCall with
        kconfuzzActions := dec.commitCall.kconfuzzActions ++
          execActions actions dec.commitCall.calls.length es.length } := by
  induction es generalizing dec with
  | nil =>
    rw [interleave, commitCall_foldl_config]
    simp [execActions, KConfuzzConfigAction.toExec, wordLength]
  | cons e es ih =>
    rw [forall_mem_cons] at hids
    rw [interleave, foldl_append, foldl_append]
    have hconfig := commitCall_foldl_config target dec
      (actionsByCall actions dec.commitCall.calls.length)
    generalize (writeKConfuzzConfigActions _).foldl (exec target) dec = dec₁ at hconfig ⊢
    have hcall := commitCall_foldl_instrs (by rw [hconfig]; exact hidle) hids.1
    generalize e.instrs.foldl (exec target) dec₁ = dec₂ at hcall ⊢
    have hlen : dec₂.commitCall.calls.length = dec.commitCall.calls.length + 1 := by
      rw [hcall, hconfig]
      simp [addCall]
    rw [← hlen, ih hids.2 (by rw [hcall, hconfig]; exact hidle), hlen, hcall, hconfig]
    have hactions := foldl_addCall_actions target (dec.commitCall.addCall target e) es
    simp only [addCall] at hactions ⊢
    rw [hactions, foldl_cons]
    simp only [addCall, execActions, range'_succ, flatMap_cons, append_assoc,
      length_cons, KConfuzzConfigAction.toExec, wordLength]

/-! ## Buffers -/

/-- A call that can be read back, up to the kinds of the arguments that are passed to it. -/
structure EncodedCall.Readable (target : Target) (e : EncodedCall) : Prop where
  id_lt : e.id.toNat < target.syscalls.length
  copyin_known : ∀ i ∈ e.copyin, i.arg.Known
  args_known : ∀ arg ∈ e.args, arg.Known

/-- The arguments can be passed to a call. -/
def EncodedCall.Scalar (e : EncodedCall) : Prop := ∀ arg ∈ e.args, arg.isScalar

/-- The buffer for the given calls. -/
def encodeBuffer (actions : List KConfuzzConfigAction) (es : List EncodedCall) : List UInt8 :=
  write (wordLength es) ++ encodeAll (interleave actions 0 es ++ [.eof])

/-- An instruction is an action or belongs to a call. -/
lemma mem_interleave {actions : List KConfuzzConfigAction} {i : ℕ} {es : List EncodedCall}
    {instr : Instr} (h : instr ∈ interleave actions i es) :
    (∃ c, instr = .kconfuzzConfig c) ∨ ∃ e ∈ es, instr ∈ e.instrs := by
  have hconfig : ∀ j, instr ∈ writeKConfuzzConfigActions (actionsByCall actions j) →
      ∃ c, instr = .kconfuzzConfig c := by
    intro j hj
    obtain ⟨a, -, ha⟩ := mem_map.mp hj
    exact ⟨_, ha.symm⟩
  induction es generalizing i with
  | nil => exact .inl (hconfig i h)
  | cons e es ih =>
    rw [interleave, mem_append, mem_append] at h
    rcases h with (h | h) | h
    · exact .inl (hconfig i h)
    · exact .inr ⟨e, mem_cons_self, h⟩
    · rcases ih h with h | ⟨e', he', h⟩
      · exact .inl h
      · exact .inr ⟨e', mem_cons_of_mem e he', h⟩

lemma call_mem_interleave {actions : List KConfuzzConfigAction} {es : List EncodedCall}
    (he : e ∈ es) (i : ℕ) : .call e.id e.copyoutIdx e.args ∈ interleave actions i es := by
  induction es generalizing i with
  | nil => cases he
  | cons e' es ih =>
    rw [interleave, mem_append, mem_append]
    rcases mem_cons.mp he with rfl | he
    · exact .inl (.inr (by simp [instrs]))
    · exact .inr (ih he (i + 1))

lemma EncodedCall.forall_mem_instrs {P : Instr → Prop} (hcopyin : ∀ i ∈ e.copyin, P (.copyin i))
    (hprops : ∀ props, P (.setProps props)) (hcall : P (.call e.id e.copyoutIdx e.args))
    (hcopyout : ∀ i ∈ e.copyout, P (.copyout i)) : ∀ instr ∈ e.instrs, P instr := by
  intro instr h
  simp only [instrs, mem_append, mem_cons, mem_map] at h
  rcases h with (⟨i, hi, rfl⟩ | ⟨props, -, rfl⟩) | rfl | ⟨i, hi, rfl⟩
  · exact hcopyin i hi
  · exact hprops props
  · exact hcall
  · exact hcopyout i hi

section Buffer

variable {es : List EncodedCall} (hreadable : ∀ e ∈ es, e.Readable target)
  (actions : List KConfuzzConfigAction) (hfits : (encodeBuffer actions es).length < 2 ^ 63)

include hreadable

lemma readable_interleave :
    ∀ instr ∈ interleave actions 0 es, ExecDecoder.Readable target instr := by
  intro instr h
  rcases mem_interleave h with ⟨c, rfl⟩ | ⟨e, he, h⟩
  · trivial
  · have hr := hreadable e he
    exact forall_mem_instrs hr.copyin_known (fun _ => trivial)
      ⟨hr.id_lt, hr.args_known⟩ (fun _ _ => trivial) instr h

omit hreadable in
lemma eof_notMem_interleave : .eof ∉ interleave actions 0 es := by
  intro h
  rcases mem_interleave h with ⟨c, hc⟩ | ⟨e, he, h⟩
  · cases hc
  · have hne : ∀ instr ∈ e.instrs, instr ≠ .eof :=
      forall_mem_instrs (by simp) (by simp) (by simp) (by simp)
    exact hne .eof h rfl

include hfits

omit hreadable in
lemma encodeAll_interleave_lt : (encodeAll (interleave actions 0 es)).length < 2 ^ 63 := by
  rw [encodeBuffer, encodeAll_append, length_append, length_append] at hfits
  omega

/-- The decoder on the buffer of calls whose arguments can be passed to calls. -/
lemma parse_encodeBuffer (hscalar : ∀ e ∈ es, e.Scalar) :
    parse target (encodeBuffer actions es).length .init (encodeBuffer actions es) =
      .ok (((), { es.foldl (addCall target) .init with
                  kconfuzzActions := execActions actions 0 es.length }), []) := by
  have hfinal : ((interleave actions 0 es).foldl (exec target) .init).commitCall =
      { es.foldl (addCall target) .init with
        kconfuzzActions := execActions actions 0 es.length } :=
    commitCall_foldl_interleave actions (fun e he => (hreadable e he).id_lt) rfl
  have hcalls : wordLength es =
      wordLength ((interleave actions 0 es).foldl (exec target) .init).commitCall.calls := by
    rw [hfinal, calls_foldl_addCall]
    simp [wordLength, ExecDecoder.init]
  have hlen : (interleave actions 0 es).length < (encodeBuffer actions es).length := by
    have := length_le_length_flatMap Instr.encode_length_pos (interleave actions 0 es ++ [.eof])
    rw [length_append, length_singleton] at this
    rw [encodeBuffer, length_append, encodeAll]
    omega
  have hscalars : ∀ instr ∈ interleave actions 0 es, ScalarArgs instr := by
    intro instr h
    rcases mem_interleave h with ⟨c, rfl⟩ | ⟨e, he, h⟩
    · trivial
    · exact forall_mem_instrs (fun _ _ => trivial) (fun _ => trivial) (hscalar e he)
        (fun _ _ => trivial) instr h
  have hparse : Parses (parse target (encodeBuffer actions es).length) .init
      (encodeBuffer actions es) () _ :=
    (parses_read _ _).bind (parses_parseLoop (readable_interleave hreadable actions)
      (eof_notMem_interleave actions) (encodeAll_interleave_lt actions hfits) hlen hscalars .init
      hcalls)
  have hrun := hparse []
  rw [append_nil] at hrun
  rw [hrun, hfinal]

lemma parse_encodeBuffer_error (he : e ∈ es) (hscalar : ¬ e.Scalar) :
    ∃ err, parse target (encodeBuffer actions es).length .init (encodeBuffer actions es) =
      .error err := by
  have hreject : Rejects (parse target (encodeBuffer actions es).length) .init
      (encodeBuffer actions es) :=
    (parses_read _ _).bind_rejects (rejects_parseLoop (readable_interleave hreadable actions)
      (eof_notMem_interleave actions) (encodeAll_interleave_lt actions hfits)
      (call_mem_interleave he 0) hscalar _ _ _)
  obtain ⟨err, herr⟩ := hreject []
  rw [append_nil] at herr
  exact ⟨err, herr⟩

/-- Decoding the buffer of calls whose arguments can be passed to calls gives back the calls, as
long as the number of variables is right. -/
lemma deserializeExec_encodeBuffer (hscalar : ∀ e ∈ es, e.Scalar) :
    deserializeExec target (encodeBuffer actions es) =
      finish { es.foldl (addCall target) .init with
               kconfuzzActions := execActions actions 0 es.length } := by
  rw [deserializeExec, parse_encodeBuffer hreadable actions hfits hscalar]

lemma deserializeExec_encodeBuffer_error (he : e ∈ es) (hscalar : ¬ e.Scalar) :
    ∃ err, deserializeExec target (encodeBuffer actions es) = .error err := by
  obtain ⟨err, herr⟩ := parse_encodeBuffer_error hreadable actions hfits he hscalar
  refine ⟨err, ?_⟩
  rw [deserializeExec, herr]

end Buffer

end KConfuzz
