import Mathlib.Data.List.Flatten
import KConfuzz.Exec.ReferenceTheorems

/-!
# Decoding what was serialized

`deserializeExec` gives back the calls of a serialized program, and the config actions that were
injected between them, exactly when three conditions on the program hold (`roundTrips_iff`): no
blob is passed to a call directly, the value of the last result that gets an index is read
(the decoder compares the number of variables that are read with the number of indices), and
checksum fields of one address are written the same.
-/

namespace KConfuzz

open Lib.ExceptFold Lib.StableSort ExecDecoder List

/-! ## The order of the actions -/

/-- By call, parameter and value. -/
def execActionLess (a b : KConfuzzConfigAction) : Bool :=
  if a.beforeCall ≠ b.beforeCall then a.beforeCall < b.beforeCall else callActionLess a b

lemma callActionLess_compares :
    Compares callActionLess fun a => toLex (a.paramID.toNat, a.valueID.toNat) := by
  intro a b
  simp only [Prod.Lex.toLex_lt_toLex, UInt64.toNat_inj]
  unfold callActionLess
  split_ifs with hparam
  · simp [hparam, UInt64.lt_iff_toNat_lt]
  · simp [not_not.mp hparam, UInt64.lt_iff_toNat_lt]

lemma execActionLess_compares :
    Compares execActionLess
      fun a => toLex (a.beforeCall, toLex (a.paramID.toNat, a.valueID.toNat)) := by
  intro a b
  rw [Prod.Lex.toLex_lt_toLex, ← callActionLess_compares a b]
  unfold execActionLess
  split_ifs with hcall
  · simp [hcall]
  · simp [not_not.mp hcall]

section Range

variable {p : Prog} {actions : List KConfuzzConfigAction}
  (hrange : ∀ a ∈ actions, a.inRange (some p))

include hrange

/-- The decoder returns the actions in the order in which they are sorted. -/
lemma execActions_eq :
    execActions actions 0 p.calls.length =
      (sliceStable execActionLess actions).map fun a => a.toExec a.beforeCall.toNat := by
  have hmap : ∀ j : ℕ, (actionsByCall actions j).map (·.toExec j) =
      (actionsByCall actions j).map fun a => a.toExec a.beforeCall.toNat := by
    intro j
    refine map_congr_left fun a ha => ?_
    rw [actionsByCall, mem_sliceStable, mem_filter, decide_eq_true_eq] at ha
    rw [ha.2, Int.toNat_natCast]
  have hsorted : ((range' 0 (p.calls.length + 1)).map Int.ofNat).Pairwise (· < ·) := by
    rw [pairwise_map]
    exact (pairwise_lt_range').imp Int.ofNat_lt.mpr
  have hmem : ∀ a ∈ actions, a.beforeCall ∈ (range' 0 (p.calls.length + 1)).map Int.ofNat := by
    intro a ha
    have := KConfuzzConfigAction.inRange_some_iff.1 (hrange a ha)
    refine mem_map.mpr ⟨a.beforeCall.toNat, ?_, Int.toNat_of_nonneg this.1⟩
    rw [mem_range'_1]
    omega
  have hsort := callActionLess_compares.flatMap_sliceStable execActionLess_compares hsorted hmem
  rw [flatMap_map] at hsort
  rw [← hsort, map_flatMap]
  exact flatMap_congr fun j _ => hmap j

lemma find?_badCallIndex :
    (actions.find? fun a => a.beforeCall < 0 ∨ (p.calls.length : ℤ) < a.beforeCall) = none := by
  rw [find?_eq_none]
  intro a ha
  have := KConfuzzConfigAction.inRange_some_iff.1 (hrange a ha)
  rw [decide_eq_true_eq]
  omega

end Range

/-! ## Sizes of buffers -/

lemma writeChecksums_perm (env env' : ExecEnv) (sums : Checksums) (addr : ArgId → UInt64) :
    (writeChecksums env sums addr).Perm (writeChecksums env' sums addr) := by
  refine (((reverse_perm _).trans ((sliceStable_perm _ _).trans ?_)).trans
    ((reverse_perm _).trans (sliceStable_perm _ _)).symm).map _
  exact (env.visit_perm _).trans (env'.visit_perm _).symm

section

variable (actions : List KConfuzzConfigAction)

include actions

lemma interleave_perm (env env' : ExecEnv) (i : ℕ) (ks : List CallSkeleton) :
    (interleave actions i (ks.map (·.fill env))).Perm
      (interleave actions i (ks.map (·.fill env'))) := by
  induction ks generalizing i with
  | nil => exact .refl _
  | cons k ks ih =>
    have hsums := writeChecksums_perm env env' k.sums k.addr
    have hinstrs : (k.fill env).instrs.Perm (k.fill env').instrs :=
      ((((hsums.append_left k.copyin).map _).append_right _).append_right _)
    exact (hinstrs.append_left _).append (ih (i + 1))

lemma interleave_nil_sublist (i : ℕ) (es : List EncodedCall) :
    (interleave [] i es).Sublist (interleave actions i es) := by
  induction es generalizing i with
  | nil => exact nil_sublist _
  | cons e es ih =>
    exact ((nil_sublist _).append (.refl _)).append (ih (i + 1))

lemma length_encodeBuffer_fill (env env' : ExecEnv) (ks : List CallSkeleton) :
    (encodeBuffer actions (ks.map (·.fill env))).length =
      (encodeBuffer actions (ks.map (·.fill env'))).length := by
  have hperm := (interleave_perm actions env env' 0 ks).append_right [.eof]
  have hlen := (hperm.flatMap_right Instr.encode).length_eq
  simp only [encodeBuffer, wordLength, length_append, length_map, encodeAll] at hlen ⊢
  omega

lemma length_encodeBuffer_nil_le (es : List EncodedCall) :
    (encodeBuffer [] es).length ≤ (encodeBuffer actions es).length := by
  have hsub := (interleave_nil_sublist actions 0 es).append_right [.eof]
  have hle := (hsub.flatMap Instr.encode).length_le
  rw [encodeBuffer, encodeBuffer, length_append, length_append, encodeAll, encodeAll]
  omega

end

/-! ## Serialized programs -/

section Prog

variable {p : Prog} (hkfuzz : ∀ c ∈ p.calls, c.callMeta.kfuzzTest = false)

include hkfuzz

/-- When there is a buffer, and what is in it. -/
lemma serializeForExecWithKConfuzz_eq_ok_iff {actions : List KConfuzzConfigAction}
    (hrange : ∀ a ∈ actions, a.inRange (some p)) {env : ExecEnv} {buf : List UInt8} :
    p.serializeForExecWithKConfuzz env actions = .ok buf ↔
      ∃ ks w, skeletons p.target .init p.calls = .ok (ks, w) ∧
        (encodeBuffer actions (ks.map (·.fill env))).length ≤ execBufferSize ∧
        w.copyoutSeq ≤ execMaxCommands ∧ buf = encodeBuffer actions (ks.map (·.fill env)) := by
  unfold Prog.serializeForExecWithKConfuzz
  rw [find?_badCallIndex hrange, serializeCalls_eq, encodeCalls_eq_fill env _ hkfuzz]
  cases hks : skeletons p.target .init p.calls with
  | error err =>
    constructor
    · intro h
      cases h
    · rintro ⟨ks, w, h, -⟩
      cases h
  | ok r =>
    obtain ⟨ks, w⟩ := r
    have hlen : wordLength p.calls = wordLength (ks.map (·.fill env)) := by
      rw [wordLength, wordLength, length_map, length_of_mapAccumM hks]
    have hbuf : write (wordLength p.calls) ++
        encodeAll (interleave actions 0 (ks.map (·.fill env)) ++ [.eof]) =
          encodeBuffer actions (ks.map (·.fill env)) := by
      rw [hlen, encodeBuffer]
    simp only [Except.map, bind, Except.bind, hbuf]
    constructor
    · intro h
      split_ifs at h with hsize hmax
      cases h
      exact ⟨ks, w, rfl, not_lt.mp hsize, not_lt.mp hmax, rfl⟩
    · rintro ⟨ks', w', hok, hsize, hmax, rfl⟩
      cases hok
      rw [if_neg (not_lt.mpr hsize)]
      dsimp only [pure, Except.pure]
      rw [if_neg (not_lt.mpr hmax)]

/-- What can be serialized in one order of the checksum fields can be in every other: the sizes do
not depend on it. -/
lemma serializeForExecWithKConfuzz_fill {actions : List KConfuzzConfigAction}
    (hrange : ∀ a ∈ actions, a.inRange (some p)) {ks : List CallSkeleton} {w : ExecContext}
    (hks : skeletons p.target .init p.calls = .ok (ks, w)) (hmax : w.copyoutSeq ≤ execMaxCommands)
    {env : ExecEnv} (hsize : (encodeBuffer actions (ks.map (·.fill env))).length ≤ execBufferSize)
    (env' : ExecEnv) :
    p.serializeForExecWithKConfuzz env' actions =
      .ok (encodeBuffer actions (ks.map (·.fill env'))) := by
  refine (serializeForExecWithKConfuzz_eq_ok_iff hkfuzz hrange).mpr ⟨ks, w, hks, ?_, hmax, rfl⟩
  rwa [length_encodeBuffer_fill actions env' env]

omit hkfuzz in
lemma serialized_of_valid (hvalid : ValidOrder (p.calls.flatMap Call.nodes))
    {ks : List CallSkeleton} {w : ExecContext}
    (hks : skeletons p.target .init p.calls = .ok (ks, w)) :
    Serialized p.target [] p.calls ks ∧ w.copyoutSeq = (p.calls.flatMap Call.usedIds).length :=
  serialized_of_skeletons (newCalls_init hvalid) hks

end Prog

lemma Serialized.forall₂ {target : Target} {done : List ArgId} {calls : List Call}
    {ks : List CallSkeleton} (h : Serialized target done calls ks) :
    List.Forall₂ (fun c k => ∃ done, SkeletonOf target done c k) calls ks := by
  induction h with
  | nil => exact .nil
  | cons head tail ih => exact .cons ⟨_, head⟩ ih

/-! ## Conditions -/

/-- No blob is passed to a call itself. -/
def Prog.PassesNoBuffer (p : Prog) : Prop := ∀ c ∈ p.calls, ∀ arg ∈ c.args, ¬ arg.isBuffer

/-- Checksum fields of one address are written the same. -/
def Prog.ChecksumsAgree (p : Prog) : Prop :=
  ∀ c ∈ p.calls, ∀ sums, calcChecksumsCall c = .ok sums → sums.Agree (c.argAddr p.target)

section Skeletons

variable {target : Target} {done : List ArgId} {c : Call} {k : CallSkeleton}
  (h : SkeletonOf target done c k) (env : ExecEnv)

include h

lemma SkeletonOf.readable (hmeta : c.callMeta ∈ target.syscalls) :
    (k.fill env).Readable target := by
  refine ⟨?_, ?_, h.args_known⟩
  · obtain ⟨hlt, -⟩ := List.getElem?_eq_some_iff.mp (Target.getElem?_id hmeta)
    have hle : (k.fill env).id.toNat ≤ c.callMeta.id := by
      have hid : (k.fill env).id = UInt64.ofNat c.callMeta.id := h.id
      rw [hid, UInt64.toNat_ofNat']
      exact Nat.mod_le _ _
    omega
  · exact forall_mem_append.mpr ⟨h.copyin_known, forall_mem_map.mpr fun _ _ => rfl⟩

/-- Whether the order of checksums matters can be told from the call. -/
lemma SkeletonOf.sumsAgree_iff :
    k.sums.Agree k.addr ↔ ∀ sums, calcChecksumsCall c = .ok sums → sums.Agree (c.argAddr target) := by
  have hsame : ∀ field ∈ k.sums.csumMap,
      csumInstr k.addr field = csumInstr (c.argAddr target) field := by
    intro field hfield
    exact csumInstr_congr h.addr hfield ((calcChecksumsCall_spec h.sums).1 field hfield).2
  have haddr : ∀ field ∈ k.sums.csumMap, k.addr field.1.id = c.argAddr target field.1.id :=
    fun field hfield => h.addr _ (.inl ⟨field, hfield, rfl⟩)
  constructor
  · intro hagree sums hsums
    obtain rfl : k.sums = sums := Except.ok.inj (h.sums.symm.trans hsums)
    intro x hx y hy hxy
    rw [← hsame x hx, ← hsame y hy]
    exact hagree x hx y hy (by rw [haddr x hx, haddr y hy, hxy])
  · intro hagree x hx y hy hxy
    rw [hsame x hx, hsame y hy]
    exact hagree k.sums h.sums x hx y hy (by rw [← haddr x hx, ← haddr y hy, hxy])

end Skeletons

/-! ## Decoding -/

lemma decode_csumInstr_inj {target : Target} {addr : ArgId → UInt64} {x y : Arg × CsumInfo}
    (h : (csumInstr addr x).decode target = (csumInstr addr y).decode target) :
    csumInstr addr x = csumInstr addr y := by
  have hchunk : Function.Injective (InstrChunk.decode target) := by
    intro a b hab
    obtain ⟨kind, value, size⟩ := a
    obtain ⟨kind', value', size'⟩ := b
    unfold InstrChunk.decode at hab
    split_ifs at hab with ha hb hb <;> simp_all
  simp only [CopyinInstr.decode, csumInstr, InstrArg.decode, ExecCopyin.mk.injEq,
    ExecArg.csum.injEq] at h
  obtain ⟨haddr, hsize, -, hchunks⟩ := h
  rw [csumInstr, csumInstr, hsize, (UInt64.add_left_inj _).mp haddr,
    map_injective_iff.mpr hchunk hchunks]

lemma map_decode_csumInstr_inj {target : Target} {addr : ArgId → UInt64} :
    ∀ {l l' : List (Arg × CsumInfo)},
      (l.map (csumInstr addr)).map (CopyinInstr.decode target) =
        (l'.map (csumInstr addr)).map (CopyinInstr.decode target) →
      l.map (csumInstr addr) = l'.map (csumInstr addr)
  | [], [], _ => rfl
  | x :: l, y :: l', h => by
    rw [map_cons, map_cons, map_cons, map_cons, List.cons.injEq] at h
    rw [map_cons, map_cons, decode_csumInstr_inj h.1, map_decode_csumInstr_inj h.2]

section Decoding

variable {p : Prog} (hvalid : ValidOrder (p.calls.flatMap Call.nodes)) {ks : List CallSkeleton}
  {w : ExecContext} (hks : skeletons p.target .init p.calls = .ok (ks, w))

include hvalid hks

lemma forall₂_skeletonOf :
    List.Forall₂ (fun c k => ∃ done, SkeletonOf p.target done c k) p.calls ks :=
  (serialized_of_valid hvalid hks).1.forall₂

lemma readable_fill (env : ExecEnv) : ∀ e ∈ ks.map (·.fill env), e.Readable p.target := by
  rw [forall_mem_map]
  intro k hk
  obtain ⟨c, hc, done, h⟩ := exists_mem_of_forall₂ (forall₂_skeletonOf hvalid hks) hk
  exact h.readable env (p.callMeta_mem c hc)

lemma scalar_fill_iff (env : ExecEnv) :
    (∀ e ∈ ks.map (·.fill env), e.Scalar) ↔ p.PassesNoBuffer := by
  rw [forall_mem_map]
  refine forall_mem_iff_of_forall₂ (forall₂_skeletonOf hvalid hks) ?_
  intro c k ⟨done, h⟩
  exact h.args_scalar

lemma agree_iff_checksumsAgree : (∀ k ∈ ks, k.sums.Agree k.addr) ↔ p.ChecksumsAgree := by
  refine forall_mem_iff_of_forall₂ (forall₂_skeletonOf hvalid hks) ?_
  intro c k ⟨done, h⟩
  exact h.sumsAgree_iff

/-- The decoder finds as many variables as there are indices. -/
lemma wordLength_vars_eq_iff (hmax : w.copyoutSeq ≤ execMaxCommands) (env : ExecEnv) :
    let dec := (ks.map (·.fill env)).foldl (addCall p.target) .init
    wordLength dec.vars = dec.numVars ↔ p.LastResultRead := by
  intro dec
  obtain ⟨hserialized, hseq⟩ := serialized_of_valid hvalid hks
  rw [hseq] at hmax
  rw [← foldl_refIdxs_eq_iff hvalid]
  exact wordLength_vars_eq_iff_of_idxs hmax (hserialized.producedIdxs env hmax)
    (hserialized.readIdxs env) fun i hi => Nat.le_of_succ_le (refIdxs_le hvalid i hi)

/-- What the buffer of a program is decoded to. -/
lemma deserializeExec_fill_eq_ok_iff {env : ExecEnv} {actions : List KConfuzzConfigAction}
    (hfits : (encodeBuffer actions (ks.map (·.fill env))).length ≤ execBufferSize)
    (hmax : w.copyoutSeq ≤ execMaxCommands) {prog : ExecProg} :
    deserializeExec p.target (encodeBuffer actions (ks.map (·.fill env))) = .ok prog ↔
      p.PassesNoBuffer ∧ p.LastResultRead ∧
        prog = { calls := ks.map fun k => (k.fill env).decode p.target
                 vars := ((ks.map (·.fill env)).foldl (addCall p.target) .init).vars
                 kconfuzzActions := execActions actions 0 p.calls.length } := by
  have hreadable := readable_fill hvalid hks env
  have hfits' : (encodeBuffer actions (ks.map (·.fill env))).length < 2 ^ 63 :=
    hfits.trans_lt (by decide)
  by_cases hscalar : ∀ e ∈ ks.map (·.fill env), e.Scalar
  · have hlen : (ks.map (·.fill env)).length = p.calls.length := by
      rw [length_map, length_of_mapAccumM hks]
    rw [deserializeExec_encodeBuffer hreadable actions hfits' hscalar, finish, hlen]
    rw [calls_foldl_addCall]
    have hvars := wordLength_vars_eq_iff hvalid hks hmax env
    by_cases hread : p.LastResultRead
    · rw [if_neg (not_not.mpr (hvars.mpr hread)), Except.ok.injEq, eq_comm]
      simp [hread, (scalar_fill_iff hvalid hks env).mp hscalar, ExecDecoder.init, Function.comp_def]
    · rw [if_pos (fun h => hread (hvars.mp h))]
      simp [hread]
  · obtain ⟨e, he, hnot⟩ : ∃ e ∈ ks.map (·.fill env), ¬ e.Scalar := by
      simpa using hscalar
    obtain ⟨err, herr⟩ := deserializeExec_encodeBuffer_error hreadable actions hfits' he hnot
    rw [herr]
    constructor
    · intro h
      cases h
    · rintro ⟨hbuffer, -⟩
      exact absurd ((scalar_fill_iff hvalid hks env).mpr hbuffer) hscalar

/-- The decoded calls do not depend on the order in which checksum fields are visited exactly
when fields of one address agree. -/
lemma decode_fill_eq_iff :
    (∀ env env' : ExecEnv, (ks.map fun k => (k.fill env).decode p.target) =
      ks.map fun k => (k.fill env').decode p.target) ↔ p.ChecksumsAgree := by
  rw [← agree_iff_checksumsAgree hvalid hks]
  constructor
  · intro h k hk
    refine agree_of_writeChecksums_eq fun env env' => ?_
    have hdecode := map_inj_left.mp (h env env') k hk
    have hcopyin := congrArg ExecCall.copyin hdecode
    simp only [EncodedCall.decode, CallSkeleton.fill, map_append, append_cancel_left_eq] at hcopyin
    exact map_decode_csumInstr_inj hcopyin
  · intro h env env'
    refine map_congr_left fun k hk => ?_
    rw [CallSkeleton.fill, CallSkeleton.fill, writeChecksums_eq_of_agree (h k hk) env env']

end Decoding

/-! ## Round trips -/

/-- A program whose buffer with the given actions decodes to the calls of its plain buffer and to
the actions, in order. -/
def RoundTrips (p : Prog) (actions : List KConfuzzConfigAction) : Prop :=
  ∀ env env' buf, p.serializeForExecWithKConfuzz env actions = .ok buf →
    ∃ plain prog plainProg, p.serializeForExec env' = .ok plain ∧
      deserializeExec p.target buf = .ok prog ∧ deserializeExec p.target plain = .ok plainProg ∧
      prog.calls = plainProg.calls ∧
      prog.kconfuzzActions =
        (sliceStable execActionLess actions).map fun a => a.toExec a.beforeCall.toNat

/-- A valid program that has a buffer makes the round trip exactly when no blob is passed to a
call, the last result is read, and checksum fields of one address agree. -/
theorem roundTrips_iff {p : Prog} (hvalid : p.validate = .ok ())
    (hkfuzz : ∀ c ∈ p.calls, c.callMeta.kfuzzTest = false) {actions : List KConfuzzConfigAction}
    (hrange : ∀ a ∈ actions, a.inRange (some p)) {env : ExecEnv} {buf : List UInt8}
    (hbuf : p.serializeForExecWithKConfuzz env actions = .ok buf) :
    RoundTrips p actions ↔ p.PassesNoBuffer ∧ p.LastResultRead ∧ p.ChecksumsAgree := by
  have horder := validOrder_of_validate hvalid
  obtain ⟨ks, w, hks, hsize, hmax, -⟩ :=
    (serializeForExecWithKConfuzz_eq_ok_iff hkfuzz hrange).mp hbuf
  -- the sizes do not depend on the order of checksum fields
  have hfits : ∀ env', (encodeBuffer actions (ks.map (·.fill env'))).length ≤ execBufferSize := by
    intro env'
    rw [length_encodeBuffer_fill actions env' env]
    exact hsize
  have hplain : ∀ env', (encodeBuffer [] (ks.map (·.fill env'))).length ≤ execBufferSize :=
    fun env' => (length_encodeBuffer_nil_le actions _).trans (hfits env')
  have hserialize := serializeForExecWithKConfuzz_fill hkfuzz hrange hks hmax hsize
  have hserializePlain := serializeForExecWithKConfuzz_fill hkfuzz (by simp) hks hmax (hplain env)
  rw [← decode_fill_eq_iff horder hks]
  constructor
  · intro h
    have hdecode : ∀ env env', p.PassesNoBuffer ∧ p.LastResultRead ∧
        (ks.map fun k => (k.fill env).decode p.target) =
          ks.map fun k => (k.fill env').decode p.target := by
      intro env env'
      obtain ⟨plain, prog, plainProg, hplainBuf, hprog, hplainProg, hcalls, -⟩ :=
        h env env' _ (hserialize env)
      obtain rfl := Except.ok.inj ((hserializePlain env').symm.trans hplainBuf)
      obtain ⟨hbuffer, hread, rfl⟩ :=
        (deserializeExec_fill_eq_ok_iff horder hks (hfits env) hmax).mp hprog
      obtain ⟨-, -, rfl⟩ :=
        (deserializeExec_fill_eq_ok_iff horder hks (hplain env') hmax).mp hplainProg
      exact ⟨hbuffer, hread, hcalls⟩
    exact ⟨(hdecode env env).1, (hdecode env env).2.1, fun env env' => (hdecode env env').2.2⟩
  · rintro ⟨hbuffer, hread, hcalls⟩ env env' buf' hbuf'
    obtain rfl := Except.ok.inj ((hserialize env).symm.trans hbuf')
    refine ⟨_, _, _, hserializePlain env',
      (deserializeExec_fill_eq_ok_iff horder hks (hfits env) hmax).mpr ⟨hbuffer, hread, rfl⟩,
      (deserializeExec_fill_eq_ok_iff horder hks (hplain env') hmax).mpr ⟨hbuffer, hread, rfl⟩,
      hcalls env env', execActions_eq hrange⟩

/-! ## Calls of the test target

The calls `test$res0() syz_res`, `test$res1(a0 syz_res)` and `test$res3(a0 ptr[out, syz_res])` of
`sys/test/test.txt`. -/

def syzRes : ResourceType :=
  { typeName := "syz_res", typeSize := 4, argFormat := .formatNative
    desc := ⟨"syz_res", [0xffff], by simp⟩ }

def resTarget : Target :=
  { syscalls := [{ id := 0, name := "test$res0" }, { id := 1, name := "test$res1" },
      { id := 2, name := "test$res3" }]
    dataOffset := 0x20000000, specialPointers := [] }

/-- The result of `test$res0`, used by the argument `user`. -/
def res0Call (user : ArgId) : Call :=
  { callMeta := { id := 0, name := "test$res0" }, args := [], props := .zero
    ret := some { id := 0, dir := .dirOut, typ := syzRes, res := none, opDiv := 0, opAdd := 0
                  val := 0, uses := [user] } }

/-- A use of the result of `test$res0`. -/
def useRes0 (id : ArgId) (dir : Dir) : Arg :=
  .result { id, dir, typ := syzRes, res := some 0, opDiv := 0, opAdd := 0, val := 0, uses := [] }

/-- `r0 = test$res0()`, `test$res1(r0)` -/
def readProg : Prog :=
  { target := resTarget
    calls := [res0Call 1, { callMeta := { id := 1, name := "test$res1" }, args := [useRes0 1 .dirIn]
                            ret := none, props := .zero }]
    callMeta_mem := by decide }

/-- `r0 = test$res0()`, `test$res3(&(0x7f0000000010)=r0)`: the reference is in an output, so the
executor does not read it. -/
def unreadProg : Prog :=
  { target := resTarget
    calls := [res0Call 2, { callMeta := { id := 2, name := "test$res3" }
                            args := [.pointer 1 .dirIn (.ptr ⟨"ptr", 8⟩) 0x10 0
                              (some (useRes0 2 .dirOut))]
                            ret := none, props := .zero }]
    callMeta_mem := by decide }

def visitInOrder : ExecEnv :=
  { visit := id, visit_perm := fun _ => .refl _, marshallKFuzztestArg := fun _ => [] }

lemma checksumsAgree_readProg : readProg.ChecksumsAgree := by
  intro c hc sums hsums
  have hempty : ∀ c ∈ readProg.calls, (calcChecksumsCall c).map (·.csumMap.length) = .ok 0 := by
    decide +kernel
  have hlen := hempty c hc
  rw [hsums] at hlen
  have hnil : sums.csumMap = [] := length_eq_zero_iff.mp (Except.ok.inj hlen)
  intro x hx
  rw [hnil] at hx
  cases hx

theorem roundTrips_readProg : RoundTrips readProg [⟨2, 1, 2, 3⟩, ⟨0, 5, 6, 0⟩, ⟨2, 0, 1, 1⟩] := by
  have hserialized : ∃ buf, readProg.serializeForExecWithKConfuzz visitInOrder
      [⟨2, 1, 2, 3⟩, ⟨0, 5, 6, 0⟩, ⟨2, 0, 1, 1⟩] = .ok buf := ⟨_, rfl⟩
  obtain ⟨buf, hbuf⟩ := hserialized
  refine (roundTrips_iff (by decide +kernel) (by decide) (by decide) hbuf).mpr ⟨?_, ?_, ?_⟩
  · unfold Prog.PassesNoBuffer
    decide
  · -- the second call reads the only result
    intro r hlast
    cases hlast
    exact ⟨_, mem_cons_of_mem _ (mem_singleton_self _), _, mem_singleton_self _, rfl, .inr rfl⟩
  · exact checksumsAgree_readProg

/-- A valid program with a result that is referred to, but not read, cannot be decoded. -/
theorem not_roundTrips_unreadProg :
    unreadProg.validate = .ok () ∧ (∀ c ∈ unreadProg.calls, c.callMeta.kfuzzTest = false) ∧
      KConfuzzConfigAction.inRange (some unreadProg) ⟨1, 2, 1, 0⟩ ∧
      ¬ RoundTrips unreadProg [⟨1, 2, 1, 0⟩] := by
  refine ⟨by decide +kernel, by decide, by decide, fun h => ?_⟩
  have hrun : (unreadProg.serializeForExecWithKConfuzz visitInOrder [⟨1, 2, 1, 0⟩]).toOption.map
      (deserializeExec unreadProg.target) = some (.error "mismatching number of vars") := by
    decide +kernel
  obtain ⟨buf, hbuf, hrun⟩ := Option.map_eq_some_iff.mp hrun
  obtain ⟨_, prog, _, _, hprog, -⟩ := h visitInOrder visitInOrder buf (toOption_eq_some_iff.1 hbuf)
  rw [hprog] at hrun
  cases hrun

end KConfuzz
