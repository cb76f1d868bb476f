import KConfuzz.Exec.RoundTripTheorems
import KConfuzz.Executor.ConfigTheorems
import KConfuzz.Executor.ExecuteOneTheorems

/-!
# Configuration and the end of the process

A run of `execute_one` on a serialized program leaves an applied action behind exactly when one
of its steps violates `Guard` while the action is pending (`restored_at_end_iff`): every exit is
taken before the restore, and there is no other way around it.
-/

namespace KConfuzz.Executor

variable {target : Target} {instrs : List Instr} {setup : Setup} {s : State} {e : Event}

/-! ## Runs -/

lemma step_of_final (h : s.control.isFinal = true) : step setup s e = s := if_pos h

lemma run_of_final (h : s.control.isFinal = true) (events : List Event) :
    run setup s events = s := by
  induction events with
  | nil => rfl
  | cons e events ih =>
    rw [run, List.foldl_cons, step_of_final h]
    exact ih

/-- Every step that is taken while an action is pending meets the condition. -/
def GuardedWhilePending (setup : Setup) : State → List Event → Prop
  | _, [] => True
  | s, e :: events =>
    (s.pending = true → Guard setup s e) ∧ GuardedWhilePending setup (step setup s e) events

/-- The process has not ended with an action that is not restored. -/
def NotLeftBehind (s : State) : Prop := s.control.isFinal = true → s.pending = false

lemma guardedWhilePending_of_final (hfinal : s.control.isFinal = true)
    (hpending : s.pending = false) (events : List Event) :
    GuardedWhilePending setup s events := by
  induction events with
  | nil => trivial
  | cons e events ih =>
    refine ⟨fun h => ?_, ?_⟩
    · rw [hpending] at h
      cases h
    · rw [step_of_final hfinal]
      exact ih

lemma Inv.pending_of_final (h : Inv setup instrs s) (hfinal : s.control.isFinal = true) :
    s.pending = false := by
  have hcontrol := h.control
  unfold ControlInv at hcontrol
  cases hc : s.control with
  | returned =>
    rw [hc] at hcontrol
    exact hcontrol
  | exited msg =>
    rw [hc] at hcontrol
    exact hcontrol.elim
  | _ =>
    rw [hc] at hfinal
    cases hfinal

/-- The run lemma: from a good state on, an action is left behind exactly when the condition is
violated while it is pending. -/
lemma notLeftBehind_iff (hs : Serialized target instrs)
    (hsys : setup.syscalls = target.syscalls.length) (h : Inv setup instrs s)
    (events : List Event) :
    NotLeftBehind (run setup s events) ↔ GuardedWhilePending setup s events := by
  induction events generalizing s with
  | nil => exact iff_of_true h.pending_of_final trivial
  | cons e events ih =>
    cases hfinal : s.control.isFinal with
    | true =>
      have hpending := h.pending_of_final hfinal
      rw [run_of_final hfinal]
      exact iff_of_true (fun _ => hpending) (guardedWhilePending_of_final hfinal hpending _)
    | false =>
      show NotLeftBehind (run setup (step setup s e) events) ↔ _
      rcases settled hs hsys h hfinal e with ⟨hguard, s', hnext, hinv⟩ | ⟨hguard, msg, hnext⟩
      · rw [GuardedWhilePending, step, hfinal, if_neg Bool.false_ne_true, hnext, ih hinv]
        exact ⟨fun hrest => ⟨fun _ => hguard, hrest⟩, fun hrest => hrest.2⟩
      · -- the process ends, and what is pending stays pending
        rw [GuardedWhilePending, step, hfinal, if_neg Bool.false_ne_true, hnext, run_of_final rfl]
        constructor
        · intro hleft
          have hpending : s.pending = false := hleft rfl
          refine ⟨fun h => ?_, guardedWhilePending_of_final rfl ?_ events⟩
          · rw [hpending] at h
            cases h
          · exact hpending
        · rintro ⟨hfirst, -⟩ -
          show s.pending = false
          rw [← Bool.not_eq_true]
          exact fun hpending => hguard (hfirst hpending)

/-! ## Serialized programs -/

lemma serialized_of_buffer {p : Prog} {env : ExecEnv} {actions : List KConfuzzConfigAction}
    {buf : List UInt8} (h : p.serializeForExecWithKConfuzz env actions = .ok buf) :
    ∃ instrs, buf = write (wordLength p.calls) ++ encodeAll (instrs ++ [.eof]) ∧
      Serialized p.target instrs := by
  obtain ⟨instrs, hbuf, hlen, -, hinstrs⟩ := exists_instrs_of_serialized h
  refine ⟨instrs, hbuf, ⟨?_, ?_⟩, fun instr hinstr => (hinstrs instr hinstr).2⟩
  · intro instr hinstr
    rcases List.mem_append.mp hinstr with hinstr | hinstr
    · exact (hinstrs instr hinstr).1
    · rw [List.mem_singleton.mp hinstr]
      trivial
  · have hsize : execBufferSize < 2 ^ 63 := by decide
    rw [hbuf, List.length_append] at hlen
    omega

/-- The invariant holds at the start. -/
lemma State.Start.inv {n : UInt64}
    (h : s.Start (write n ++ encodeAll (instrs ++ [.eof]))) : Inv setup instrs s where
  threads :=
    { thread := fun i =>
        have hfree := Bool.eq_false_iff.mp (h.idle i).1
        { created := fun hbusy => absurd hbusy hfree
          idle := fun hcreated _ => (h.idle i).2 hcreated
          busy := fun hbusy => absurd hbusy hfree
          pos := fun hbusy => absurd hbusy hfree }
      running := by
        have hbusy : s.busy = ∅ := by
          ext i
          simp [mem_busy, (h.idle i).1]
        rw [h.running, hbusy]
        rfl }
  control := by
    rw [ControlInv, h.control]
    exact ⟨n, h.inputPos, fun _ i => (h.idle i).1⟩

/-- On a serialized program, the process ends without an action that is not restored exactly when
every step taken while one is pending meets the condition. -/
theorem restored_at_end_iff {p : Prog} {env : ExecEnv} {actions : List KConfuzzConfigAction}
    {buf : List UInt8} (hbuf : p.serializeForExecWithKConfuzz env actions = .ok buf)
    (hsys : setup.syscalls = p.target.syscalls.length) (hstart : s.Start buf)
    (events : List Event) :
    NotLeftBehind (run setup s events) ↔ GuardedWhilePending setup s events := by
  obtain ⟨instrs, rfl, hs⟩ := serialized_of_buffer hbuf
  exact notLeftBehind_iff hs hsys hstart.inv events

/-! ## Calls that block -/

/-- A process with no threads yet. -/
def startAt (buf : List UInt8) : State :=
  { control := .header, inputPos := buf, threads := fun _ => .zero, running := 0, completed := 0
    callProps := .zero, config := startState, pending := false }

lemma startAt_start (buf : List UInt8) : (startAt buf).Start buf where
  control := rfl
  inputPos := rfl
  idle := fun _ => ⟨rfl, fun h => by cases h⟩
  running := rfl
  completed := rfl
  callProps := rfl
  pending := rfl

/-- The threaded mode without coverage. -/
def plainSetup : Setup :=
  { threaded := true, flagCoverage := false, collect := false, extraCoverage := false
    comparisons := false, openedKcov := 0, syscalls := 1, configs := [vsyscall32] }

/-- `pause() (async)`, the given number of times. -/
def pauseProg (n : ℕ) : Prog :=
  { target := { syscalls := [{ id := 0, name := "pause" }], dataOffset := 0, specialPointers := [] }
    calls := List.replicate n
      { callMeta := { id := 0, name := "pause" }, args := [], ret := none
        props := { failNth := 0, async := true, rerun := 0 } }
    callMeta_mem := by simp }

/-- The serialized program, with an action before its first call, and what a run on it ends
with. -/
def endOfRun (n : ℕ) (events : List Event) : Option (List UInt8 × Control × Bool) :=
  ((pauseProg n).serializeForExecWithKConfuzz visitInOrder [⟨0, 0, 0, 0⟩]).toOption.map fun buf =>
    let s := run plainSetup (startAt buf) events
    (buf, s.control, s.pending)

lemma exists_buffer_of_endOfRun {n : ℕ} {events : List Event} {control : Control}
    {pending : Bool} (h : (endOfRun n events).map Prod.snd = some (control, pending)) :
    ∃ buf, (pauseProg n).serializeForExecWithKConfuzz visitInOrder [⟨0, 0, 0, 0⟩] = .ok buf ∧
      (run plainSetup (startAt buf) events).control = control ∧
      (run plainSetup (startAt buf) events).pending = pending := by
  unfold endOfRun at h
  cases hbuf : (pauseProg n).serializeForExecWithKConfuzz visitInOrder [⟨0, 0, 0, 0⟩] with
  | error err =>
    rw [hbuf] at h
    cases h
  | ok buf =>
    rw [hbuf] at h
    cases h
    exact ⟨buf, rfl, rfl, rfl⟩

/-- The call is taken and completed before the program ends; the main thread then looks at all
threads once. -/
def pauseEvents : List Event :=
  List.replicate 6 (.main {}) ++ [.start 0 none, .finish 0 false none] ++
    List.replicate 37 (.main { expired := false }) ++ [.main { expired := true }]

theorem restored_at_end_pause :
    ∃ buf, (pauseProg 1).serializeForExecWithKConfuzz visitInOrder [⟨0, 0, 0, 0⟩] = .ok buf ∧
      (run plainSetup (startAt buf) pauseEvents).control = .returned ∧
      GuardedWhilePending plainSetup (startAt buf) pauseEvents := by
  have hrun : (endOfRun 1 pauseEvents).map Prod.snd = some (.returned, false) := by decide +kernel
  obtain ⟨buf, hbuf, hcontrol, hpending⟩ := exists_buffer_of_endOfRun hrun
  refine ⟨buf, hbuf, hcontrol, ?_⟩
  exact (restored_at_end_iff hbuf rfl (startAt_start buf) pauseEvents).mp fun _ => hpending

/-- No call ever completes: 32 of them occupy the threads, and the next one ends the process with
the parameter as the program has set it. -/
theorem not_restored_at_end_pause :
    ∃ buf, (pauseProg 33).serializeForExecWithKConfuzz visitInOrder [⟨0, 0, 0, 0⟩] = .ok buf ∧
      (run plainSetup (startAt buf) (List.replicate 630 (.main {}))).control =
        .exited "out of threads" ∧
      ¬ NotLeftBehind (run plainSetup (startAt buf) (List.replicate 630 (.main {}))) := by
  have hrun : (endOfRun 33 (List.replicate 630 (.main {}))).map Prod.snd =
      some (.exited "out of threads", true) := by decide +kernel
  obtain ⟨buf, hbuf, hcontrol, hpending⟩ := exists_buffer_of_endOfRun hrun
  refine ⟨buf, hbuf, hcontrol, fun h => ?_⟩
  have hfinal : (run plainSetup (startAt buf) (List.replicate 630 (.main {}))).control.isFinal =
      true := by rw [hcontrol]; rfl
  rw [h hfinal] at hpending
  cases hpending

end KConfuzz.Executor
