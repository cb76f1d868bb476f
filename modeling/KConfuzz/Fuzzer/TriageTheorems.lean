import KConfuzz.Fuzzer.Triage
import Mathlib.Data.List.Count

/-!
# What the counters of candidates say

In every reachable state `statCandidates` is the number of candidates that are not finished, and
`statJobsTriageCandidate` is the number of triage jobs of candidates that have counted themselves
(`Inv`). A job that was started and has not counted itself is in neither of them, as its candidate
may be finished already. Hence `CandidateTriageFinished` is right if and only if there is no such
job when it reads the second counter.
-/

namespace KConfuzz.Triage

open List
open Option (bind_eq_some_iff bind_eq_bind)

variable {cfg : Config} {s s' : State}

/-! ## Counting in lists -/

variable {i : ℕ}

lemma countP_set {α : Type} {l : List α} {a : α} (p : α → Bool) (b : α) (h : l[i]? = some a) :
    ((l.set i b).countP p : ℤ) =
      l.countP p - (if p a then 1 else 0) + (if p b then 1 else 0) := by
  obtain ⟨hi, rfl⟩ := List.getElem?_eq_some_iff.mp h
  have hle := boole_getElem_le_countP (p := p) hi
  rw [List.countP_set hi]
  split_ifs at hle ⊢ <;> omega

/-! ## The invariant -/

/-- A candidate that is still counted. -/
def Req.pending (req : Req) : Bool := req.flags.candidate && req.phase != .finished

/-- A job that is counted for a candidate. -/
def Job.counted (job : Job) : Bool :=
  job.forCandidate && (job.phase == .counted || job.phase == .returned)

/-- Whether the execution of the present attempt is still to come. -/
def ReqPhase.before : ReqPhase → Bool
  | .created | .queued => true
  | _ => false

/-- A request is executed once per attempt, and subtracted when it is finished. -/
structure Req.Ok (req : Req) : Prop where
  attempt_le : req.attempt ≤ 3
  executions_eq : req.executions = req.attempt + if req.phase.before then 0 else 1
  decrements_eq : req.decrements = if req.flags.candidate ∧ req.phase = .finished then 1 else 0

structure Inv (s : State) : Prop where
  reqs : ∀ req ∈ s.reqs, req.Ok
  candidates : s.statCandidates = s.reqs.countP Req.pending
  jobs : s.statJobsTriageCandidate = s.jobs.countP Job.counted

lemma inv_init : Inv State.init where
  reqs := by simp [State.init]
  candidates := rfl
  jobs := rfl

lemma maxCandidateAttempts_le (cfg : Config) (res : Result) : maxCandidateAttempts cfg res ≤ 3 := by
  unfold maxCandidateAttempts
  split
  · split <;> omega
  · exact Nat.le_refl 3

variable {n : ℤ}

lemma Inv.set {req req' : Req} (hinv : Inv s) (hget : s.reqs[i]? = some req) (hok : req'.Ok)
    (hn : n = s.statCandidates - (if req.pending then 1 else 0) + if req'.pending then 1 else 0) :
    Inv { s with reqs := s.reqs.set i req', statCandidates := n } where
  reqs := by
    intro r hr
    rcases mem_or_eq_of_mem_set hr with hr | rfl
    · exact hinv.reqs r hr
    · exact hok
  candidates := by
    show n = ((s.reqs.set i req').countP Req.pending : ℤ)
    rw [countP_set _ _ hget, hn, hinv.candidates]
  jobs := hinv.jobs

lemma Req.Ok.move {req : Req} {phase' : ReqPhase} {executions' : ℕ} (hok : req.Ok)
    (hphase : req.phase ≠ .finished) (hphase' : phase' ≠ .finished)
    (hexec : executions' = req.attempt + if phase'.before then 0 else 1) :
    ({ req with phase := phase', executions := executions' } : Req).Ok ∧
      ({ req with phase := phase', executions := executions' } : Req).pending = req.pending := by
  refine ⟨⟨hok.attempt_le, hexec, ?_⟩, ?_⟩
  · simpa [hphase, hphase'] using hok.decrements_eq
  · simp only [Req.pending, bne_iff_ne.mpr hphase, bne_iff_ne.mpr hphase']

/-- An event of a request or a job: there can only be fewer candidates, and the readers are left
alone. -/
structure Progress (s s' : State) : Prop where
  inv : Inv s → Inv s'
  le : s'.statCandidates ≤ s.statCandidates
  readers : s'.readers = s.readers

lemma advance_progress {f : Req → Option Req} (h : s.advance i f = some s')
    (hf : ∀ req req', req.Ok → f req = some req' → req'.Ok ∧ req'.pending = req.pending) :
    Progress s s' := by
  unfold State.advance at h
  simp only [bind_eq_bind, bind_eq_some_iff] at h
  obtain ⟨req, hget, req', hreq', h⟩ := h
  cases h
  refine ⟨fun hinv => ?_, Int.le_refl _, rfl⟩
  obtain ⟨hok, hpending⟩ := hf req req' (hinv.reqs req (mem_of_getElem? hget)) hreq'
  refine hinv.set hget hok ?_
  rw [hpending]
  omega

/-- A job that goes on only makes progress. -/
lemma advanceJob_progress {j : ℕ} {phase phase' : JobPhase}
    (hn : n = (if phase' == .counted || phase' == .returned then 1 else 0) -
      if phase == .counted || phase == .returned then 1 else 0)
    (h : s.advanceJob j phase phase' n = some s') : Progress s s' := by
  unfold State.advanceJob at h
  simp only [bind_eq_bind, bind_eq_some_iff] at h
  obtain ⟨job, hget, h⟩ := h
  by_cases hphase : job.phase = phase
  swap
  · rw [if_neg hphase] at h
    cases h
  rw [if_pos hphase] at h
  cases h
  refine ⟨fun hinv => ⟨hinv.reqs, hinv.candidates, ?_⟩, Int.le_refl _, rfl⟩
  show _ = ((s.jobs.set j _).countP Job.counted : ℤ)
  rw [countP_set _ _ hget, hn, hinv.jobs]
  unfold Job.counted
  rw [hphase]
  cases job.forCandidate
  · simp
  · simp only [Bool.true_and, if_true]
    omega

/-- Starting triage only makes progress. -/
lemma triage_progress (h : s.triage i = some s') : Progress s s' := by
  unfold State.triage at h
  simp only [bind_eq_bind, bind_eq_some_iff] at h
  obtain ⟨req, hget, h⟩ := h
  split at h
  · rename_i res hphase
    cases h
    refine ⟨fun hinv => ?_, Int.le_refl _, rfl⟩
    have hok := hinv.reqs req (mem_of_getElem? hget)
    have hexec : req.executions = req.attempt + 1 := by
      simpa [hphase, ReqPhase.before] using hok.executions_eq
    obtain ⟨hok', hpending⟩ :=
      @Req.Ok.move req (.triaged res) _ hok (by simp [hphase]) (by simp) hexec
    have hset : Inv { s with reqs := s.reqs.set i { req with phase := .triaged res } } := by
      refine hinv.set hget hok' ?_
      rw [hpending]
      omega
    refine ⟨hset.reqs, hset.candidates, ?_⟩
    show s.statJobsTriageCandidate = _
    rw [hinv.jobs]
    split
    · -- The new job has not counted itself.
      simp [countP_append, Job.counted]
    · rfl
  · cases h

/-- Deciding about a result only makes progress. -/
lemma decide_progress (h : s.decide cfg i = some s') : Progress s s' := by
  unfold State.decide at h
  simp only [bind_eq_bind, bind_eq_some_iff] at h
  obtain ⟨req, hget, h⟩ := h
  split at h
  · rename_i res hphase
    have hreq (hinv : Inv s) :
        req.attempt ≤ 3 ∧ req.executions = req.attempt + 1 ∧ req.decrements = 0 := by
      have hok := hinv.reqs req (mem_of_getElem? hget)
      exact ⟨hok.attempt_le, by simpa [hphase, ReqPhase.before] using hok.executions_eq,
        by simpa [hphase] using hok.decrements_eq⟩
    split_ifs at h with hretry hcandidate
    · cases h
      refine ⟨fun hinv => ?_, Int.le_refl _, rfl⟩
      obtain ⟨-, hexec, hdec⟩ := hreq hinv
      refine hinv.set hget ⟨?_, ?_, ?_⟩ ?_
      · -- There is a next attempt only below the limit.
        have hlimit := maxCandidateAttempts_le cfg res
        simp only [retries, Bool.and_eq_true, decide_eq_true_eq] at hretry
        show req.attempt + 1 ≤ 3
        omega
      · simp [hexec, ReqPhase.before]
      · simp [hdec]
      · simp [Req.pending, hphase]
    all_goals
      cases h
      refine ⟨fun hinv => ?_, by dsimp only; omega, rfl⟩
      obtain ⟨hattempt, hexec, hdec⟩ := hreq hinv
      refine hinv.set hget ⟨hattempt, ?_, ?_⟩ ?_
      · simp [hexec, ReqPhase.before]
      · simp [hdec, hcandidate]
      · simp [Req.pending, hphase, hcandidate]
  · cases h

lemma append_inv {reqs : List Req} (hinv : Inv s) (hok : ∀ req ∈ reqs, req.Ok)
    (hn : n = s.statCandidates + reqs.countP Req.pending) :
    Inv { s with reqs := s.reqs ++ reqs, statCandidates := n } where
  reqs := by
    intro req hreq
    rw [mem_append] at hreq
    exact hreq.elim (hinv.reqs req) (hok req)
  candidates := by
    show n = ((s.reqs ++ reqs).countP Req.pending : ℤ)
    rw [countP_append, hn, hinv.candidates]
    omega
  jobs := hinv.jobs

lemma Req.ok_new (flags : ProgFlags) {phase : ReqPhase} (hphase : phase.before = true) :
    (Req.new flags phase).Ok where
  attempt_le := Nat.zero_le 3
  executions_eq := by simp [Req.new, hphase]
  decrements_eq := by
    cases phase <;> simp_all [Req.new, ReqPhase.before]

/-- The events of requests and jobs. -/
def Event.Internal : Event → Prop
  | .addCandidates _ | .submit _ | .readCandidates _ | .readJobs _ => False
  | _ => True

lemma progress_of_step {e : Event} (h : step cfg s e = some s') (he : e.Internal) :
    Progress s s' := by
  cases e with
  | enqueue i | next i | done i res =>
    refine advance_progress h fun req req' hok hreq' => ?_
    split_ifs at hreq' with hphase
    cases hreq'
    refine hok.move (by simp [hphase]) (by simp) ?_
    simpa [hphase, ReqPhase.before] using hok.executions_eq
  | triage i => exact triage_progress h
  | decide i => exact decide_progress h
  | countJob j | runJob j | endJob j => exact advanceJob_progress rfl h
  | _ => cases he

/-- Every event keeps the invariant. -/
lemma step_inv {e : Event} (hinv : Inv s) (h : step cfg s e = some s') : Inv s' := by
  cases e with
  | addCandidates flags =>
    cases h
    refine append_inv hinv ?_ ?_
    · refine forall_mem_map.mpr fun flags' _ => ?_
      exact Req.ok_new _ rfl
    · rw [countP_map, countP_eq_length.mpr]
      intro flags' _
      rfl
  | submit inTriage =>
    cases h
    refine append_inv hinv ?_ ?_
    · intro req hreq
      rw [mem_singleton.mp hreq]
      exact Req.ok_new _ rfl
    · show s.statCandidates = s.statCandidates + 0
      omega
  | readCandidates k =>
    cases h
    exact ⟨hinv.reqs, hinv.candidates, hinv.jobs⟩
  | readJobs k =>
    simp only [step] at h
    split at h
    · cases h
      exact ⟨hinv.reqs, hinv.candidates, hinv.jobs⟩
    · cases h
  | _ => exact (progress_of_step h trivial).inv hinv

/-! ## Reading the counters -/

/-- Every candidate and every triage job of one has finished. -/
def State.AllFinished (s : State) : Prop :=
  (∀ req ∈ s.reqs, req.flags.candidate = true → req.phase = .finished) ∧
    ∀ job ∈ s.jobs, job.forCandidate = true → job.phase = .ended

/-- No job of a candidate has been started that has not counted itself yet. -/
def State.AllCounted (s : State) : Prop :=
  ∀ job ∈ s.jobs, job.forCandidate = true → job.phase ≠ .started

/-- Candidates are not added while somebody is between the two reads. -/
def Event.Quiet (s : State) : Event → Prop
  | .addCandidates _ => ∀ k, s.readers k = none
  | _ => True

/-- All events of a run are quiet. -/
def QuietRun (cfg : Config) : State → List Event → Prop
  | _, [] => True
  | s, e :: events => e.Quiet s ∧ ∀ s', step cfg s e = some s' → QuietRun cfg s' events

/-- Since the first read there can only be fewer candidates. -/
def ReadersKnow (s : State) : Prop := ∀ k v, s.readers k = some v → s.statCandidates ≤ v

/-- The number of candidates only grows when candidates are added. -/
lemma step_readersKnow {e : Event} (hknow : ReadersKnow s) (hquiet : e.Quiet s)
    (h : step cfg s e = some s') : ReadersKnow s' := by
  cases e with
  | addCandidates flags =>
    cases h
    intro k v hk
    rw [hquiet k] at hk
    cases hk
  | submit inTriage =>
    cases h
    exact hknow
  | readCandidates k =>
    cases h
    intro k' v hk
    dsimp only at hk ⊢
    split_ifs at hk
    · cases hk
      exact Int.le_refl _
    · exact hknow k' v hk
  | readJobs k =>
    simp only [step] at h
    split at h
    · cases h
      intro k' v hk
      dsimp only at hk ⊢
      split_ifs at hk
      exact hknow k' v hk
    · cases h
  | _ =>
    have hprogress := progress_of_step h trivial
    intro k v hk
    rw [hprogress.readers] at hk
    exact Int.le_trans hprogress.le (hknow k v hk)

lemma run_inv {events : List Event} (hinv : Inv s) (h : run cfg s events = some s') :
    Inv s' ∧ (QuietRun cfg s events → ReadersKnow s → ReadersKnow s') := by
  induction events generalizing s with
  | nil =>
    cases h
    exact ⟨hinv, fun _ => id⟩
  | cons e events ih =>
    obtain ⟨s1, hstep, h⟩ := Option.bind_eq_some_iff.mp h
    obtain ⟨hinv', hknow⟩ := ih (step_inv hinv hstep) h
    exact ⟨hinv', fun hquiet hreaders =>
      hknow (hquiet.2 s1 hstep) (step_readersKnow hreaders hquiet.1 hstep)⟩

/-- When the sum of the two reads is 0, no candidate is pending and no job is counted. -/
lemma counts_eq_zero {k : ℕ} (hinv : Inv s) (hknow : ReadersKnow s)
    (h : s.candidateTriageFinished k = true) :
    (∀ req ∈ s.reqs, req.pending = false) ∧ ∀ job ∈ s.jobs, job.counted = false := by
  obtain ⟨v, hk, hsum⟩ : ∃ v, s.readers k = some v ∧ v + s.statJobsTriageCandidate = 0 := by
    unfold State.candidateTriageFinished at h
    cases hk : s.readers k with
    | none => simp [hk] at h
    | some v => exact ⟨v, rfl, by simpa [hk] using h⟩
  have hle := hknow k v hk
  rw [hinv.jobs] at hsum
  rw [hinv.candidates] at hle
  have hreqs : s.reqs.countP Req.pending = 0 := by omega
  have hjobs : s.jobs.countP Job.counted = 0 := by omega
  rw [countP_eq_zero] at hreqs hjobs
  simpa only [Bool.not_eq_true] using And.intro hreqs hjobs

/-- When triage is reported as finished, all is if all was counted. -/
lemma allFinished_iff_allCounted {k : ℕ} (hinv : Inv s) (hknow : ReadersKnow s)
    (h : s.candidateTriageFinished k = true) : s.AllFinished ↔ s.AllCounted := by
  obtain ⟨hreqs, hjobs⟩ := counts_eq_zero hinv hknow h
  constructor
  · intro hfinished job hjob hcandidate
    rw [hfinished.2 job hjob hcandidate]
    simp
  · intro hcounted
    refine ⟨fun req hreq hcandidate => ?_, fun job hjob hcandidate => ?_⟩
    · have hpending := hreqs req hreq
      simpa [Req.pending, hcandidate] using hpending
    · -- A job that is not started, counted or returned has ended.
      have hnot := hjobs job hjob
      have hstarted := hcounted job hjob hcandidate
      unfold Job.counted at hnot
      rw [hcandidate] at hnot
      cases hphase : job.phase with
      | started => exact absurd hphase hstarted
      | counted => simp [hphase] at hnot
      | returned => simp [hphase] at hnot
      | ended => rfl

/-- The end of `processResult` is reached from any state. -/
lemma decide_of_triaged {req : Req} {res : Result} (hget : s.reqs[i]? = some req)
    (hphase : req.phase = .triaged res) :
    ∃ s' req', step cfg s (.decide i) = some s' ∧ s'.reqs[i]? = some req' ∧
      req'.phase = if retries cfg req.flags req.attempt res then .queued else .finished := by
  have hi : i < s.reqs.length := (List.getElem?_eq_some_iff.mp hget).1
  simp only [step, State.decide, hget, bind_eq_bind, Option.bind_some, hphase]
  split_ifs
  · exact ⟨_, _, rfl, getElem?_set_self hi, rfl⟩
  · exact ⟨_, _, rfl, getElem?_set_self hi, rfl⟩
  · exact ⟨_, _, rfl, getElem?_set_self hi, rfl⟩

/-- In every run: a candidate is executed at most four times and is subtracted from
`statCandidates` when its final result has been processed, which nothing can prevent, and not
again. If no candidates are added between the two reads of `CandidatesToTriage`, then
`CandidateTriageFinished` returns true only when everything has finished, provided that every job
that was started for a candidate has counted itself. -/
theorem candidate_accounting (cfg : Config) (events : List Event) (s : State)
    (h : run cfg State.init events = some s) :
    (∀ req ∈ s.reqs, req.flags.candidate = true →
      req.executions ≤ 4 ∧ req.decrements = if req.phase = .finished then 1 else 0) ∧
    s.statCandidates = s.reqs.countP Req.pending ∧
    (∀ i req res, s.reqs[i]? = some req → req.phase = .triaged res →
      ∃ s' req', step cfg s (.decide i) = some s' ∧ s'.reqs[i]? = some req' ∧
        req'.phase = if retries cfg req.flags req.attempt res then .queued else .finished) ∧
    (QuietRun cfg State.init events → ∀ k, s.candidateTriageFinished k = true →
      (s.AllFinished ↔ s.AllCounted)) := by
  obtain ⟨hinv, hreaders⟩ := run_inv inv_init h
  refine ⟨fun req hreq hcandidate => ?_, hinv.candidates,
    fun i req res hget hphase => decide_of_triaged hget hphase, fun hquiet k hk => ?_⟩
  · have hok := hinv.reqs req hreq
    refine ⟨?_, ?_⟩
    · have hattempt := hok.attempt_le
      rw [hok.executions_eq]
      split <;> omega
    · rw [hok.decrements_eq]
      simp only [hcandidate, true_and]
  · have hknow : ReadersKnow State.init := by
      intro k v hk
      cases hk
    exact allFinished_iff_allCounted hinv (hreaders hquiet hknow) hk

/-- A result with new signal. -/
def newSignalResult : Result :=
  { status := .success, hasInfo := true, newSignal := true, risky := false }

/-- One candidate up to the end of `processResult`, with a triage job. -/
def oneCandidate : List Event :=
  [.addCandidates [{ fromCorpus := true, candidate := false, inTriage := false }], .enqueue 0,
    .next 0, .done 0 newSignalResult, .triage 0, .decide 0]

/-- The job counts itself, runs and ends before the counters are read. -/
theorem candidate_accounting_oneCandidate :
    ∃ s, run ⟨false⟩ State.init
        (oneCandidate ++ [.countJob 0, .runJob 0, .endJob 0, .readCandidates 0]) = some s ∧
      s.candidateTriageFinished 0 = true ∧ s.AllFinished := by
  refine ⟨_, rfl, rfl, ?_⟩
  refine ((candidate_accounting ⟨false⟩
    (oneCandidate ++ [.countJob 0, .runJob 0, .endJob 0, .readCandidates 0]) _ rfl).2.2.2
      ?_ 0 rfl).mpr ?_
  · refine ⟨fun _ => rfl, fun _ _ => ?_⟩
    repeat (first | exact trivial | refine ⟨trivial, fun _ _ => ?_⟩)
  · show ∀ job ∈ [(⟨true, .ended⟩ : Job)], job.forCandidate = true → job.phase ≠ .started
    decide

/-- The counters are read before the goroutine of the job has done anything. -/
theorem candidateTriageFinished_too_early :
    ∃ s, run ⟨false⟩ State.init (oneCandidate ++ [.readCandidates 0]) = some s ∧
      s.candidateTriageFinished 0 = true ∧ ¬ s.AllFinished := by
  refine ⟨_, rfl, rfl, fun hfinished => ?_⟩
  have hjob := hfinished.2 ⟨true, .started⟩ (mem_singleton.mpr rfl) rfl
  cases hjob

end KConfuzz.Triage
