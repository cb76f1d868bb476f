import KConfuzz.Fuzzer.Deflake

/-!
# What stable signal is

An element of `signals j` was reported in `j + 1` executions, with one exception: the execution
that adds a call to a running job is counted twice, once by `triageProgCall` and once more by the
code behind it. So for the calls a job starts with stable signal is what it should be, and for the
others one execution less may be enough.
-/

namespace KConfuzz.Deflake

open Lib.FiniteMap Lib.GradedSet List

variable (env : Env)

/-! ## Executions -/

/-- What an execution says about a call. -/
def reported (info : ProgInfo) (call : ℤ) : Option CallInfo :=
  if call = -1 then info.extra else if 0 ≤ call then (info.calls[call.toNat]?).join else none

/-- The execution reported the element for the call, with at least the priority. -/
def reports (call : ℤ) (e : UInt64) (prio : ℤ) (info : ProgInfo) : Bool :=
  (reported info call).any fun res => atLeast (thisSignal env res call) e prio

/-- The elements of every signal were reported often enough; `extra` executions may be missing. -/
def Counted (execs : List ProgInfo) (extra : ℕ) (call : ℤ) (info : TriageCall) : Prop :=
  ∀ j e prio, atLeast (info.signals j) e prio = true →
    j + 1 ≤ execs.countP (reports env call e prio) + extra

variable {env} {job : Job} {info : ProgInfo} {call : ℤ} {res : CallInfo} {extra : ℕ}
  {execs : List ProgInfo}

lemma Counted.skip {t : TriageCall} (h : Counted env execs extra call t) (info : ProgInfo) :
    Counted env (execs ++ [info]) extra call t := by
  intro j e prio hj
  have hle := h j e prio hj
  rw [countP_append]
  omega

/-- One more execution that reports the call is counted. -/
lemma Counted.shift {t : TriageCall} (h : Counted env execs extra call t)
    (hres : reported info call = some res) (newSignal : Signal) :
    Counted env (execs ++ [info]) extra call { t with
      newSignal := newSignal
      signals := shiftSignals env t.signals (thisSignal env res call) } := by
  intro j e prio hj
  have hcount : atLeast (thisSignal env res call) e prio = true →
      (execs ++ [info]).countP (reports env call e prio) =
        execs.countP (reports env call e prio) + 1 := by
    intro hthis
    simp [reports, hres, hthis]
  change atLeast (shiftSignals env t.signals _ j) e prio = true at hj
  unfold shiftSignals at hj
  split_ifs at hj with hzero hneed
  · subst hzero
    rcases atLeast_merge.1 hj with hold | hthis
    · exact h.skip info 0 e prio hold
    · rw [hcount hthis]
      omega
  · rcases atLeast_merge.1 hj with hold | hboth
    · exact h.skip info j e prio hold
    · obtain ⟨hprev, hthis⟩ := atLeast_of_common hboth
      have hle := h (j - 1) e prio hprev
      rw [hcount hthis]
      omega
  · exact h.skip info j e prio hj

/-! ## One call -/

/-- `triageProgCall` adds a call with the signal of the execution, or does nothing to the job. -/
lemma calls_triageProgCall (env : Env) (job : Job) (call : ℤ) (res : Option CallInfo) :
    (triageProgCall env job call res).calls = job.calls ∨
      ∃ info t, res = some info ∧ (triageProgCall env job call res).calls = job.calls.insert call t ∧
        t.signals = fun j => if j = 0 then thisSignal env info call else ∅ := by
  cases res with
  | none => exact .inl rfl
  | some info =>
    unfold triageProgCall
    dsimp only
    split_ifs
    · exact .inl rfl
    · exact .inl rfl
    · exact .inr ⟨info, _, rfl, rfl, rfl⟩

lemma calls_deflakeCall (env : Env) (job : Job) (call : ℤ) (res : Option CallInfo) :
    (deflakeCall env job call res).calls = (withCall env job call res).calls ∨
      ∃ info t newSignal, res = some info ∧ t ∈ (withCall env job call res).calls.lookup call ∧
        (deflakeCall env job call res).calls =
          (withCall env job call res).calls.insert call { t with
            newSignal := newSignal
            signals := shiftSignals env t.signals (thisSignal env info call) } := by
  unfold deflakeCall
  dsimp only
  split
  · rename_i t info hlookup
    exact .inr ⟨info, t, _, rfl, hlookup, rfl⟩
  · exact .inl rfl

/-- What happens to one call does not touch the others. -/
def Local (f : Job → ℤ → Option CallInfo → Job) : Prop :=
  ∀ job call res other, other ≠ call ∨ res = none →
    (f job call res).calls.lookup other = job.calls.lookup other

lemma local_triageProgCall (env : Env) : Local (triageProgCall env) := by
  intro job call res other h
  rcases calls_triageProgCall env job call res with heq | ⟨info, t, rfl, heq, -⟩
  · rw [heq]
  · rw [heq, AList.lookup_insert_ne (h.resolve_right nofun)]

lemma local_withCall (env : Env) : Local (withCall env) := by
  intro job call res other h
  unfold withCall
  split_ifs
  · rfl
  · exact local_triageProgCall env job call res other h

lemma local_deflakeCall (env : Env) : Local (deflakeCall env) := by
  intro job call res other h
  have hwith := local_withCall env job call res other h
  rcases calls_deflakeCall env job call res with heq | ⟨info, t, _, rfl, -, heq⟩
  · rw [heq, hwith]
  · rw [heq, AList.lookup_insert_ne (h.resolve_right nofun), hwith]

/-- A call that was in the job, or need not be counted in full, is counted once more. -/
lemma counted_deflakeCall (h : ∀ t ∈ job.calls.lookup call, Counted env execs extra call t)
    (hextra : call ∈ job.calls ∨ 1 ≤ extra) :
    ∀ t ∈ (deflakeCall env job call (reported info call)).calls.lookup call,
      Counted env (execs ++ [info]) extra call t := by
  have hwith : ∀ t ∈ (withCall env job call (reported info call)).calls.lookup call,
      Counted env execs extra call t := by
    unfold withCall
    split_ifs with hmem
    · exact h
    · rcases calls_triageProgCall env job call (reported info call) with
        heq | ⟨res, t, -, heq, hsignals⟩
      · rw [heq]
        exact h
      · rw [heq, AList.lookup_insert]
        -- only the first signal has elements, and one execution may be missing
        intro t' ht' j e prio hj
        cases ht'
        have hle := hextra.resolve_left hmem
        rw [hsignals] at hj
        dsimp only at hj
        split_ifs at hj with hzero
        · omega
        · cases hj
  rcases calls_deflakeCall env job call (reported info call) with
    heq | ⟨res, t, _, hres, ht, heq⟩
  · rw [heq]
    exact fun t ht => (hwith t ht).skip info
  · rw [heq, AList.lookup_insert]
    intro t' ht'
    cases ht'
    exact (hwith t ht).shift hres _

/-! ## All calls of an execution -/

variable {f : Job → ℤ → Option CallInfo → Job}

/-- The loop over the calls changes each entry by its own call. -/
lemma lookup_foldl_zipIdx (hf : Local f) (calls : List (Option CallInfo)) (k : ℕ) (job : Job)
    (call : ℤ) :
    (call < k → ((calls.zipIdx k).foldl (fun job c => f job c.2 c.1) job).calls.lookup call =
        job.calls.lookup call) ∧
      ∀ n : ℕ, call = k + n → ∃ job' : Job, job'.calls.lookup call = job.calls.lookup call ∧
        ((calls.zipIdx k).foldl (fun job c => f job c.2 c.1) job).calls.lookup call =
          (f job' call (calls[n]?).join).calls.lookup call := by
  induction calls generalizing k job with
  | nil => exact ⟨fun _ => rfl, fun n _ => ⟨job, rfl, (hf job call _ call (.inr rfl)).symm⟩⟩
  | cons c calls ih =>
    obtain ⟨hbefore, hat⟩ := ih (k + 1) (f job k c)
    have hother : call ≠ k → (f job k c).calls.lookup call = job.calls.lookup call :=
      fun hne => hf job k c call (.inl hne)
    rw [zipIdx_cons, foldl_cons]
    refine ⟨fun hlt => ?_, fun n hn => ?_⟩
    · rw [hbefore (by omega), hother (by omega)]
    · cases n with
      | zero =>
        have hk : call = k := by simpa using hn
        refine ⟨job, rfl, ?_⟩
        rw [hbefore (by omega), hk]
        rfl
      | succ n =>
        obtain ⟨job', hsame, heq⟩ := hat n (by omega)
        exact ⟨job', hsame.trans (hother (by omega)), heq⟩

/-- Every call is dealt with once, with what the execution says about it. -/
lemma lookup_forCalls (hf : Local f) (info : ProgInfo) (job : Job) (call : ℤ) :
    ∃ job' : Job, job'.calls.lookup call = job.calls.lookup call ∧
      (forCalls f info job).calls.lookup call =
        (f job' call (reported info call)).calls.lookup call := by
  obtain ⟨hbefore, hat⟩ := lookup_foldl_zipIdx hf info.calls 0 job call
  unfold forCalls reported
  by_cases hextra : call = -1
  · subst hextra
    exact ⟨_, hbefore (by decide), rfl⟩
  · rw [hf _ _ _ _ (.inl hextra), if_neg hextra]
    split_ifs with hpos
    · exact hat call.toNat (by simp [hpos])
    · exact ⟨job, rfl, (hbefore (by omega)).trans (hf job call none call (.inr rfl)).symm⟩

/-! ## Runs -/

/-- The calls of a job are counted; only those it did not start with may miss an execution. -/
structure Sound (env : Env) (start job : Job) : Prop where
  mem : ∀ call ∈ start.calls, call ∈ job.calls
  counted : ∀ call, ∀ t ∈ job.calls.lookup call,
    Counted env job.execs (if call ∈ start.calls then 0 else 1) call t

lemma execs_forCalls (hf : ∀ job call res, (f job call res).execs = job.execs) (info : ProgInfo)
    (job : Job) :
    (forCalls f info job).execs = job.execs := by
  unfold forCalls
  rw [hf]
  induction info.calls.zipIdx generalizing job with
  | nil => rfl
  | cons c calls ih => rw [foldl_cons, ih, hf]

lemma execs_triageProgCall (env : Env) (job : Job) (call : ℤ) (res : Option CallInfo) :
    (triageProgCall env job call res).execs = job.execs := by
  cases res with
  | none => rfl
  | some info =>
    unfold triageProgCall
    dsimp only
    split_ifs
    · rfl
    · rfl
    · rfl

lemma execs_deflakeCall (env : Env) (job : Job) (call : ℤ) (res : Option CallInfo) :
    (deflakeCall env job call res).execs = job.execs := by
  have hwith : (withCall env job call res).execs = job.execs := by
    unfold withCall
    split_ifs
    · rfl
    · exact execs_triageProgCall env job call res
  unfold deflakeCall
  dsimp only
  split
  · exact hwith
  · exact hwith

/-- A new job is sound. -/
lemma sound_newJob (env : Env) (cover : Cover) (info : ProgInfo) :
    Sound env (newJob env cover info) (newJob env cover info) := by
  refine ⟨fun _ h => h, fun call t ht => ?_⟩
  have hexecs : (newJob env cover info).execs = [info] :=
    execs_forCalls (execs_triageProgCall env) info _
  rw [if_pos (mem_iff_exists_lookup.2 ⟨t, ht⟩), hexecs]
  obtain ⟨job', hnone, heq⟩ := lookup_forCalls (local_triageProgCall env) info
    ⟨∅, cover, 0, [info]⟩ call
  have ht' : t ∈ (triageProgCall env job' call (reported info call)).calls.lookup call := heq ▸ ht
  rcases calls_triageProgCall env job' call (reported info call) with
    hsame | ⟨res, t', hres, hinsert, hsignals⟩
  · rw [hsame, hnone] at ht'
    cases ht'
  · rw [hinsert, AList.lookup_insert] at ht'
    cases ht'
    intro j e prio hj
    rw [hsignals] at hj
    dsimp only at hj
    split_ifs at hj with hzero
    · rw [countP_singleton, if_pos (by simp [reports, hres, hj])]
      omega
    · cases hj

/-- An execution keeps the counts sound. -/
lemma Sound.execute {start : Job} (h : Sound env start job) (info : ProgInfo) :
    Sound env start
      (forCalls (deflakeCall env) info { job with execs := job.execs ++ [info] }) := by
  have hexecs := execs_forCalls (execs_deflakeCall env) info
    { job with execs := job.execs ++ [info] }
  have hcall : ∀ call, ∃ job' : Job, job'.calls.lookup call = job.calls.lookup call ∧ _ :=
    fun call => lookup_forCalls (local_deflakeCall env) info
      { job with execs := job.execs ++ [info] } call
  have hmem : ∀ {call : ℤ} {job' : Job}, job'.calls.lookup call = job.calls.lookup call →
      (call ∈ job'.calls ↔ call ∈ job.calls) := by
    intro call job' hsame
    rw [← AList.lookup_isSome, ← AList.lookup_isSome, hsame]
  refine ⟨fun call hstart => ?_, fun call t ht => ?_⟩
  · obtain ⟨job', hsame, heq⟩ := hcall call
    have hin := (hmem hsame).mpr (h.mem call hstart)
    rw [← AList.lookup_isSome, heq, AList.lookup_isSome]
    have hwith : withCall env job' call (reported info call) = job' := if_pos hin
    rcases calls_deflakeCall env job' call (reported info call) with
      hcalls | ⟨_, _, _, -, -, hcalls⟩
    · rw [hcalls, hwith]
      exact hin
    · rw [hcalls, AList.mem_insert]
      exact .inl rfl
  · obtain ⟨job', hsame, heq⟩ := hcall call
    rw [hexecs]
    rw [heq] at ht
    refine counted_deflakeCall (fun t ht => h.counted call t (hsame ▸ ht)) ?_ t ht
    by_cases hstart : call ∈ start.calls
    · exact .inl ((hmem hsame).mpr (h.mem call hstart))
    · rw [if_neg hstart]
      exact .inr (le_refl 1)

/-- The loop keeps the counts sound. -/
lemma Sound.deflakeLoop {start job' : Job} {results : List Result} {run prev : ℕ}
    (h : Sound env start job)
    (hrun : deflakeLoop env results run prev job = some (.finished job')) :
    Sound env start job' := by
  induction results generalizing run prev job with
  | nil =>
    unfold Deflake.deflakeLoop at hrun
    split_ifs at hrun
    cases hrun
    exact h
  | cons result results ih =>
    unfold Deflake.deflakeLoop at hrun
    split_ifs at hrun
    · cases hrun
      exact h
    · cases result with
      | stop => cases hrun
      | failed => exact ih h hrun
      | info info => exact ih (h.execute info) hrun

/-- Stable signal of a call that the job starts with was reported in `needRuns` executions; of
other calls one execution may be missing. -/
theorem stable_signal_reported {cover : Cover} {info : ProgInfo} {results : List Result}
    {job : Job} (hrun : deflake env results (newJob env cover info) = some (.finished job))
    {call : ℤ} {t : TriageCall} (ht : t ∈ job.calls.lookup call) {e : UInt64} {prio : ℤ}
    (hprio : prio ∈ (stableSignal env t).lookup e) :
    (call ∈ (newJob env cover info).calls →
        needRuns env ≤ job.execs.countP (reports env call e prio)) ∧
      needRuns env ≤ job.execs.countP (reports env call e prio) + 1 := by
  have hcounted := ((sound_newJob env cover info).deflakeLoop hrun).counted call t ht
    (needRuns env - 1) e prio (atLeast_iff.2 ⟨prio, hprio, le_refl prio⟩)
  refine ⟨fun hstart => ?_, ?_⟩
  · rw [if_pos hstart] at hcounted
    omega
  · split_ifs at hcounted
    · omega
    · omega

/-! ## Two calls -/

def snapshotEnv : Env where
  snapshot := true
  fromCorpus := false
  containsAny _ := false
  newInputFilter _ := true
  others _ cover := cover

/-- A program of two calls, where the second one reports an element in the second execution. -/
def twoCalls (signal : List UInt64) : ProgInfo := ⟨[some ⟨0, [1]⟩, some ⟨0, signal⟩], none⟩

def twoCallsRun : Option Outcome :=
  deflake snapshotEnv [.info (twoCalls [2]), .info (twoCalls [])]
    (newJob snapshotEnv ⟨∅, ∅⟩ (twoCalls []))

lemma exists_stable_of_finished (env : Env) (outcome : Option Outcome) (call : ℤ) (e : UInt64)
    (P : Job → ℤ → Bool)
    (h : (match outcome with
      | some (.finished job) =>
        (job.calls.lookup call).any fun t => ((stableSignal env t).lookup e).any (P job)
      | _ => false) = true) :
    ∃ job t prio, outcome = some (.finished job) ∧ t ∈ job.calls.lookup call ∧
      prio ∈ (stableSignal env t).lookup e ∧ P job prio = true := by
  split at h
  · rename_i job
    obtain ⟨t, ht, hany⟩ := (Option.any_eq_true _ _).mp h
    obtain ⟨prio, hprio, hP⟩ := (Option.any_eq_true _ _).mp hany
    exact ⟨job, t, prio, rfl, ht, hprio, hP⟩
  · cases h

theorem stable_signal_reported_first_call :
    ∃ job t prio, twoCallsRun = some (.finished job) ∧ t ∈ job.calls.lookup 0 ∧
      prio ∈ (stableSignal snapshotEnv t).lookup 1 ∧
      needRuns snapshotEnv ≤ job.execs.countP (reports snapshotEnv 0 1 prio) := by
  obtain ⟨job, t, prio, hrun, ht, hprio, -⟩ := exists_stable_of_finished snapshotEnv
    twoCallsRun 0 1 (fun _ _ => true) (by decide +kernel)
  exact ⟨job, t, prio, hrun, ht, hprio,
    (stable_signal_reported hrun ht hprio).1 (by decide +kernel)⟩

/-- The element of the second call is stable after one execution that reported it. -/
theorem added_call_is_stable_after_one_report :
    ∃ job t prio, twoCallsRun = some (.finished job) ∧ t ∈ job.calls.lookup 1 ∧
      prio ∈ (stableSignal snapshotEnv t).lookup 2 ∧
      job.execs.countP (reports snapshotEnv 1 2 prio) < needRuns snapshotEnv := by
  obtain ⟨job, t, prio, hrun, ht, hprio, hlt⟩ := exists_stable_of_finished snapshotEnv
    twoCallsRun 1 2 (fun job prio => decide (job.execs.countP (reports snapshotEnv 1 2 prio) <
      needRuns snapshotEnv)) (by decide +kernel)
  exact ⟨job, t, prio, hrun, ht, hprio, of_decide_eq_true hlt⟩

end KConfuzz.Deflake
