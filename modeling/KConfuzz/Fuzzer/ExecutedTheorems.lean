import KConfuzz.Executor.ConfigTheorems
import KConfuzz.Executor.WalkTheorems
import KConfuzz.Fuzzer.RequestTheorems

/-!
# From a request to the executor

Whatever a request carries, what is serialized for it is sorted and in range
(`prepared_executedActions`), so the executor applies it as it is.
-/

namespace KConfuzz

open Env Executor Lib.ExceptFold Lib.StableSort List

variable {env : Env} {q : List String} {p : Prog} {req : Request}

/-- What is executed is prepared for the program. -/
lemma prepared_executedActions (hreq : ForProg p req) :
    env.Prepared p (executedActions env q p req) := by
  cases hdisabled : req.kconfuzzConfigDisabled with
  | true =>
    rw [ForProg.executedActions_of_disabled hdisabled]
    exact prepared_nil
  | false =>
    cases henabled : env.actionsEnabled with
    | false =>
      rw [hreq.executedActions_of_not_enabled hdisabled henabled]
      exact prepared_nil
    | true =>
      rw [hreq.executedActions_of_enabled hdisabled henabled]
      split
      · exact prepared_planFromEnv
      · exact prepareEnabled_spec.1

/-- From the buffer of a request, the executor gets the actions that both stages decided on, each
before its call. -/
theorem walk_executedActions (hreq : ForProg p req) (hbuffer : p.PassesNoBuffer) {exec : ExecEnv}
    {buf : List UInt8}
    (hbuf : p.serializeForExecWithKConfuzz exec (executedActions env q p req) = .ok buf) :
    ∃ w, walk p.target buf = .ok w ∧ w.calls.length = p.calls.length ∧
      w.actions = (executedActions env q p req).map fun a => a.toExec a.beforeCall.toNat := by
  have hprepared : env.Prepared p (executedActions env q p req) := prepared_executedActions hreq
  generalize executedActions env q p req = actions at hprepared hbuf ⊢
  obtain ⟨es, w, hencode, -, rfl, hsize⟩ := serializeForExecWithKConfuzz_eq_ok hbuf
  have hcalls := forall₂_of_mapAccumM hencode
  have hreadable : ∀ e ∈ es, e.Readable p.target := fun e he =>
    ((encodeCalls_bounded p.callMeta_mem bounded_init hencode).2 e he).1
  have hscalar : ∀ e ∈ es, e.Scalar := by
    refine (forall_mem_iff_of_forall₂ hcalls ?_).mpr hbuffer
    rintro c e ⟨w, w', h⟩
    exact (serializeCall_parts h).2.2
  -- the writer does not compare flags, and without them the actions are still sorted
  have hsorted : sliceStable execActionLess actions = actions := by
    apply execActionLess_compares.sliceStable_eq_self
    refine hprepared.sorted.imp fun {a b} hle => ?_
    simp only [KConfuzzConfigAction.key, Prod.Lex.toLex_le_toLex] at hle ⊢
    omega
  refine ⟨_, (walk_encodeBuffer hreadable actions (hsize.trans_lt (by decide))).1 hscalar, ?_, ?_⟩
  · rw [Walk.between, length_map, hcalls.length_eq]
  · rw [Walk.between, ← hcalls.length_eq, execActions_eq hprepared.inRange, hsorted]

lemma executedActions_bpfProg :
    executedActions sampleEnv [] bpfProg
      { Request.new bpfProg with kconfuzzConfigActions := [⟨0, 0, 1, 0⟩] } = [⟨0, 0, 1, 0⟩] := by
  rw [ForProg.executedActions_of_actions ⟨rfl, rfl⟩ rfl sampleEnv_actionsEnabled (by simp)]
  decide

/-- A request that carries an action. -/
theorem walk_executedActions_bpfProg :
    ∃ buf w, walk bpfProg.target buf = .ok w ∧ w.actions = [⟨0, 0, 1, 0⟩] := by
  obtain ⟨w, hwalk, -, hactions⟩ :=
    @walk_executedActions sampleEnv [] bpfProg _ ⟨rfl, rfl⟩ (by simp [Prog.PassesNoBuffer, bpfProg])
      visitInOrder _ (by rw [executedActions_bpfProg]; rfl)
  exact ⟨_, w, hwalk, by rw [hactions, executedActions_bpfProg]; rfl⟩

/-! ## In the executor -/

/-- Both tables are generated from one list: an identifier is an index, with the same values. -/
def Registry.Matches (R : Registry) (configs : List RuntimeConfigEntry) : Prop :=
  ∀ param ∈ R.params,
    configs[param.id.toNat]?.map (·.values.length) = some param.valueCount.toNat

variable {R : Registry} {configs : List RuntimeConfigEntry} {a : KConfuzzConfigAction}

/-- A supported action writes a value of the executor's table. -/
lemma Registry.Matches.writes (h : R.Matches configs) (ha : supportedAction R a) :
    ConfigAction.Writes configs ⟨a.paramID, a.valueID, a.flags⟩ := by
  unfold supportedAction at ha
  split at ha
  · cases ha
  · next param hparam =>
    obtain ⟨entry, hentry, hlen⟩ := Option.map_eq_some_iff.mp (h param (mem_of_find?_eq_some hparam))
    have hid : param.id = a.paramID := by simpa using find?_some hparam
    simp only [Bool.and_eq_true, Bool.or_eq_true, bne_iff_ne, decide_eq_true_eq] at ha
    obtain ⟨⟨-, hne⟩, hvalue⟩ := ha
    refine ⟨entry, hid ▸ hentry, ?_⟩
    rw [hlen]
    split
    · exact Nat.pos_of_ne_zero fun hzero => hne (UInt64.toNat_inj.mp hzero)
    · next hflip => exact hvalue.resolve_right fun hne => hflip (bne_iff_ne.mpr hne)

/-- The executor rejects no action of a request: each leads to a write, in whatever state. -/
theorem isSome_apply_executedActions (hreq : ForProg p req) (htable : env.registry.Matches configs)
    (ha : a ∈ executedActions env q p req) (s : ConfigState) (access : ApplyEnv) :
    (kconfuzzApplyConfigAction configs s ⟨a.paramID, a.valueID, a.flags⟩ access).2.isSome :=
  apply_snd_isSome_iff.mpr (htable.writes ((prepared_executedActions hreq).supported a ha))

theorem isSome_apply_bpfProg :
    (kconfuzzApplyConfigAction (replicate 85 vsyscall32) startState ⟨0, 1, 0⟩
      ⟨.ok, .ok, .ok⟩).2.isSome :=
  @isSome_apply_executedActions sampleEnv [] bpfProg _ _ ⟨0, 0, 1, 0⟩ ⟨rfl, rfl⟩
    (by unfold Registry.Matches; decide) (by rw [executedActions_bpfProg]; simp) _ _

end KConfuzz
