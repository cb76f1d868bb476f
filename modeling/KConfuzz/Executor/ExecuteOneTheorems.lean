import Mathlib.Data.Finset.Card
import KConfuzz.Exec.IndexTheorems
import KConfuzz.Executor.ExecuteOne
import KConfuzz.Executor.InputTheorems

/-!
# The restore and the exits of `execute_one`

The restore stands at the one place where `execute_one` returns. A process that ends earlier
leaves the parameters as the program has set them. `Inv` is what holds between any two steps of
main thread and workers: positions are positions in the program, the events of a thread tell what
its worker does, and `running` counts the calls in flight. From it follows which of the exits can
be taken at all: a step ends the process exactly when it violates `Guard`
(`next_eq_ok_iff_guard`), and a run leaves an action behind exactly when such a step comes while
one is pending.
-/

namespace KConfuzz.Executor

open Lib.ExceptFold List Function State
open ExecDecoder (Readable)

/-! ## Contents of instructions -/

/-- `copyin` knows the size and the format of the argument. -/
def CopyinFits : InstrArg → Prop
  | .const info _ =>
    checkCopyin (info &&& 0xff) ((info >>> 8) &&& 0xff) ((info >>> 16) &&& 0xff)
      ((info >>> 24) &&& 0xff) = .ok ()
  | .result info _ _ _ _ => checkCopyin (info &&& 0xff) (info >>> 8) 0 0 = .ok ()
  | .csum size _ chunks => size = 2 ∧ ∀ chunk ∈ chunks, checkChunk chunk = .ok ()
  | _ => True

/-- The argument can be passed to a call. -/
def ArgFits : InstrArg → Prop
  | .const info val => checkArg (.const info val) = .ok ()
  | .result info _ _ _ _ => info >>> 8 = binaryFormatNative
  | .addr32 _ | .addr64 _ => True
  | .data .. | .csum .. => False

/-- The sizes, formats and the number of arguments are ones that the executor handles. -/
def InstrFits : Instr → Prop
  | .copyin i => CopyinFits i.arg
  | .call _ _ args => args.length ≤ kMaxArgs ∧ ∀ arg ∈ args, ArgFits arg
  | _ => True

variable {idx : UInt64}

lemma checkResult_eq_ok (h : idx.toNat < kMaxCommands) : checkResult idx = .ok () := by
  rw [checkResult, failIf_eq_ok_iff]
  omega

lemma checkCopyinArg_eq_ok_iff {arg : InstrArg} (h : arg.IndexBelow kMaxCommands) :
    checkCopyinArg arg = .ok () ↔ CopyinFits arg := by
  cases arg with
  | const info val => exact Iff.rfl
  | addr32 addr | addr64 addr | data readable blob => exact iff_of_true rfl trivial
  | result info idx opDiv opAdd default =>
    rw [checkCopyinArg, checkResult_eq_ok (h idx rfl)]
    exact Iff.rfl
  | csum size kind chunks =>
    simp only [checkCopyinArg, CopyinFits, bind_eq_ok_iff, failIf_eq_ok_iff, forM_eq_ok_iff,
      exists_and_left, exists_const, not_not]

lemma checkArg_eq_ok_iff {arg : InstrArg} (h : arg.IndexBelow kMaxCommands) :
    checkArg arg = .ok () ↔ ArgFits arg := by
  cases arg with
  | const info val => exact Iff.rfl
  | addr32 addr | addr64 addr => exact iff_of_true rfl trivial
  | data readable blob | csum size kind chunks => exact iff_of_false (by simp [checkArg]) id
  | result info idx opDiv opAdd default =>
    simp only [checkArg, ArgFits, bind_eq_ok_iff, failIf_eq_ok_iff, checkResult_eq_ok (h idx rfl),
      not_not]
    simp

/-- The checks of an instruction in closed form. -/
lemma checkInstr_eq_ok_iff {instr : Instr} (h : instr.IndicesBelow kMaxCommands) :
    checkInstr instr = .ok () ↔ InstrFits instr := by
  cases instr with
  | copyin i => exact checkCopyinArg_eq_ok_iff h
  | call id copyoutIdx args =>
    have hargs : args.forM checkArg = .ok () ↔ ∀ arg ∈ args, ArgFits arg := by
      rw [forM_eq_ok_iff]
      constructor
      · exact fun hall arg harg => (checkArg_eq_ok_iff (h.2 arg harg)).mp (hall arg harg)
      · exact fun hall arg harg => (checkArg_eq_ok_iff (h.2 arg harg)).mpr (hall arg harg)
    rw [checkInstr, bind_eq_ok_iff, InstrFits, ← hargs]
    constructor
    · rintro ⟨u, hlen, h⟩
      rw [failIf_eq_ok_iff] at hlen
      exact ⟨by omega, h⟩
    · rintro ⟨hlen, h⟩
      exact ⟨(), failIf_eq_ok_iff.2 (by omega), h⟩
  | copyout i | setProps props | kconfuzzConfig i | eof => exact iff_of_true rfl trivial

/-- Results of the call can be copied out. -/
def CopyoutsFit (pos : List UInt8) : Prop :=
  ∀ l, copyoutsAt pos = .ok l → ∀ i ∈ l, i.size ∈ ([1, 2, 4, 8] : List UInt64)

/-! ## Positions in a program -/

/-- Instructions as they come out of the serializer, without the final `eof`. -/
structure Serialized (target : Target) (instrs : List Instr) : Prop where
  readable : ReadableAll target (instrs ++ [.eof])
  below : ∀ instr ∈ instrs, instr.IndicesBelow kMaxCommands

/-- A position between two instructions of the program, or at its end. -/
def At (instrs : List Instr) (pos : List UInt8) : Prop :=
  ∃ done rest, instrs = done ++ rest ∧ pos = encodeAll (rest ++ [.eof])

section Positions

variable {target : Target} {instrs : List Instr} {pos : List UInt8}

variable (hs : Serialized target instrs)

include hs

lemma Serialized.suffix {done rest : List Instr}
    (h : instrs = done ++ rest) : ReadableAll target (rest ++ [.eof]) := by
  have hall := hs.readable
  rw [h, append_assoc] at hall
  exact hall.append_right

/-- The next instruction is the end, or one of the program with the rest of it behind. -/
lemma At.fetch (hat : At instrs pos) :
    ∃ instr rest, fetchInstr () pos = .ok ((instr, ()), rest) ∧
      instr.IndicesBelow kMaxCommands ∧ Readable target instr ∧
      (instr = .eof ∨ At instrs rest) := by
  obtain ⟨done, rest, hsplit, rfl⟩ := hat
  have hall := hs.suffix hsplit
  cases rest with
  | nil => exact ⟨.eof, _, fetchInstr_encodeAll hall, trivial, trivial, .inl rfl⟩
  | cons instr rest =>
    have hmem : instr ∈ instrs := by
      rw [hsplit]
      exact mem_append_right done mem_cons_self
    have hreadable : Readable target (received instr) := by
      have := hall.readable instr mem_cons_self
      cases instr <;> exact this
    have hbelow : (received instr).IndicesBelow kMaxCommands := by
      have := hs.below _ hmem
      cases instr <;> exact this
    refine ⟨received instr, _, fetchInstr_encodeAll hall, hbelow,
      hreadable, .inr ⟨done ++ [instr], rest, ?_, rfl⟩⟩
    rw [hsplit, append_assoc, singleton_append]

lemma At.copyouts (hat : At instrs pos) :
    ∃ l, copyoutsAt pos = .ok l ∧ ∀ i ∈ l, i.idx.toNat < kMaxCommands := by
  obtain ⟨done, rest, hsplit, rfl⟩ := hat
  refine ⟨_, copyoutsAt_encodeAll (hs.suffix hsplit) (by simp), ?_⟩
  intro i hi
  have hmem := mem_of_mem_leadingCopyouts hi
  rw [mem_append, mem_singleton] at hmem
  have hrest := hmem.resolve_right (by simp)
  exact hs.below (.copyout i) (by rw [hsplit]; exact mem_append_right done hrest)

omit hs in
/-- The index of a return value can be stored. -/
def IndexFits (idx : UInt64) : Prop := idx ≠ execNoCopyout → idx.toNat < kMaxCommands

/-- The copyouts behind a call pass exactly when they fit. -/
lemma copyoutCallResults_eq_ok_iff (hat : At instrs pos)
    (hidx : IndexFits idx) : copyoutCallResults idx pos = .ok () ↔ CopyoutsFit pos := by
  obtain ⟨l, hl, hbelow⟩ := hat.copyouts hs
  have hfail : failIf (idx ≠ execNoCopyout ∧ kMaxCommands ≤ idx.toNat)
      "result overflows kMaxCommands" = .ok () := by
    rw [failIf_eq_ok_iff]
    rintro ⟨hne, hle⟩
    have := hidx hne
    omega
  have hcheck : ∀ i ∈ l, checkCopyout i = .ok () ↔ i.size ∈ ([1, 2, 4, 8] : List UInt64) := by
    intro i hi
    have := hbelow i hi
    rw [checkCopyout, bind_eq_ok_iff]
    simp only [failIf_eq_ok_iff, not_not, exists_const]
    constructor
    · exact fun h => h.2
    · exact fun h => ⟨by omega, h⟩
  have hforM : copyoutCallResults idx pos = l.forM checkCopyout := by
    rw [copyoutCallResults, hfail, hl]
    rfl
  rw [hforM, forM_eq_ok_iff]
  constructor
  · intro h l' hl' i hi
    obtain rfl : l = l' := Except.ok.inj (hl.symm.trans hl')
    exact (hcheck i hi).mp (h i hi)
  · exact fun h i hi => (hcheck i hi).mpr (h l hl i hi)

end Positions

/-! ## Threads -/

/-- What the fields of a thread say about each other. -/
structure ThreadInv (instrs : List Instr) (th : Thread) : Prop where
  created : th.executing = true → th.created = true
  idle : th.created = true → th.executing = false → th.ready = false ∧ th.done = true
  busy : th.executing = true → th.done = true → th.ready = false
  pos : th.executing = true → At instrs th.copyoutPos ∧ IndexFits th.copyoutIndex

lemma ThreadInv.of_idle {instrs : List Instr} {th : Thread} (hidle : th.executing = false)
    (hready : th.ready = false) (hdone : th.done = true) : ThreadInv instrs th where
  created h := by simp [hidle] at h
  idle _ _ := ⟨hready, hdone⟩
  busy h := by simp [hidle] at h
  pos h := by simp [hidle] at h

/-- The threads with a call in flight. -/
def State.busy (s : State) : Finset ℕ :=
  {i ∈ Finset.range kMaxThreads | (s.threads i).executing = true}

structure ThreadsInv (instrs : List Instr) (s : State) : Prop where
  thread : ∀ i, ThreadInv instrs (s.threads i)
  running : s.running = s.busy.card

section Threads

variable {instrs : List Instr} {s s' : State} {i : ℕ} {th : Thread}

lemma mem_busy : i ∈ s.busy ↔ i < kMaxThreads ∧ (s.threads i).executing = true := by
  rw [busy, Finset.mem_filter, Finset.mem_range]

lemma forall_threads_update {P : Thread → Prop} {threads : ℕ → Thread} (h : ∀ j, P (threads j))
    (hth : P th) (j : ℕ) : P (update threads i th j) := by
  by_cases hj : j = i
  · rw [hj, update_self]
    exact hth
  · rw [update_of_ne hj]
    exact h j

lemma mem_busy_setThread {n : ℤ} {j : ℕ} : j ∈ busy { s.setThread i th with running := n } ↔
    j < kMaxThreads ∧ (if j = i then th else s.threads j).executing = true := by
  rw [mem_busy, State.setThread]
  dsimp only
  rw [update_apply]

section

variable (h : ThreadsInv instrs s)

include h

lemma ThreadsInv.congr (hthreads : s'.threads = s.threads) (hrunning : s'.running = s.running) :
    ThreadsInv instrs s' where
  thread := by rw [hthreads]; exact h.thread
  running := by rw [hrunning, h.running, busy, busy, hthreads]

lemma ThreadsInv.setThread (hth : ThreadInv instrs th)
    (hsame : th.executing = (s.threads i).executing) : ThreadsInv instrs (s.setThread i th) where
  thread := forall_threads_update h.thread hth
  running := by
    have hbusy : busy { s.setThread i th with running := s.running } = s.busy := by
      ext j
      rw [mem_busy_setThread, mem_busy]
      split
      · rename_i hj
        rw [hj, hsame]
      · rfl
    exact h.running.trans (congrArg _ (congrArg _ hbusy.symm))

/-- A thread starts a call. -/
lemma ThreadsInv.begin (hth : ThreadInv instrs th) (hlt : i < kMaxThreads)
    (hidle : (s.threads i).executing = false) (hexec : th.executing = true) :
    ThreadsInv instrs { s.setThread i th with running := s.running + 1 } where
  thread := forall_threads_update h.thread hth
  running := by
    have hbusy : busy { s.setThread i th with running := s.running + 1 } = insert i s.busy := by
      ext j
      rw [mem_busy_setThread, Finset.mem_insert, mem_busy]
      by_cases hj : j = i
      · simp [hj, hlt, hexec]
      · simp [hj]
    have hnot : i ∉ s.busy := by simp [mem_busy, hidle]
    have hrunning := h.running
    rw [hbusy, Finset.card_insert_of_notMem hnot]
    show s.running + 1 = _
    omega

/-- A thread finishes its call. -/
lemma ThreadsInv.finish (hth : ThreadInv instrs th) (hlt : i < kMaxThreads)
    (hbusy : (s.threads i).executing = true) (hexec : th.executing = false) :
    ThreadsInv instrs { s.setThread i th with running := s.running - 1 } where
  thread := forall_threads_update h.thread hth
  running := by
    have herase : busy { s.setThread i th with running := s.running - 1 } = s.busy.erase i := by
      ext j
      rw [mem_busy_setThread, Finset.mem_erase, mem_busy]
      by_cases hj : j = i
      · simp [hj, hexec]
      · simp [hj]
    have hmem : i ∈ s.busy := mem_busy.2 ⟨hlt, hbusy⟩
    have hpos := Finset.card_pos.mpr ⟨i, hmem⟩
    have hrunning := h.running
    rw [herase, Finset.card_erase_of_mem hmem]
    show s.running - 1 = _
    omega

lemma ThreadsInv.running_pos (hlt : i < kMaxThreads) (hbusy : (s.threads i).executing = true) :
    1 ≤ s.running := by
  have hpos := Finset.card_pos.mpr ⟨i, mem_busy.2 ⟨hlt, hbusy⟩⟩
  rw [h.running]
  omega

end

end Threads

/-! ## Completions -/

section Completions

variable {target : Target} {instrs : List Instr} {setup : Setup} {c : Choice} {s s' : State}
  {i : ℕ}

lemma check_eq_ok_iff {u : Unit} : c.check = .ok u ↔ c.fault = none := by
  unfold Choice.check
  split <;> simp_all

lemma writeOutput_eq_ok_iff :
    writeOutput c s = .ok s' ↔
      (c.fault = none ∧ s.completed < kMaxCalls) ∧ s' = { s with completed := s.completed + 1 } := by
  simp only [writeOutput, bind_eq_ok_iff, check_eq_ok_iff, failIf_eq_ok_iff, exists_const, not_le,
    pure, Except.pure, Except.ok.injEq, and_assoc, eq_comm (a := s')]

lemma writeExtraOutput_eq_ok_iff :
    writeExtraOutput setup c s = .ok s' ↔
      (setup.writesExtra c = true → c.fault = none ∧ s.completed < kMaxCalls) ∧
        s' = { s with completed := s.completed + if setup.writesExtra c then 1 else 0 } := by
  unfold writeExtraOutput
  cases setup.writesExtra c with
  | true => simp [writeOutput_eq_ok_iff]
  | false => exact ok_eq_ok_iff (by simp)

/-- What the completion of a call asks for: entries of the output, and copyouts of sizes that
there are. -/
structure CompletionFits (setup : Setup) (c : Choice) (completed : ℕ) (th : Thread) : Prop where
  fault : c.fault = none
  slot : completed < kMaxCalls
  extraSlot : setup.writesExtra c = true → completed + 1 < kMaxCalls
  copyouts : th.failed = false → CopyoutsFit th.copyoutPos

/-- The state after `handle_completion` of thread `i`. -/
def afterCompletion (setup : Setup) (c : Choice) (s : State) (i : ℕ) : State :=
  { s.setThread i { s.threads i with executing := false } with
    running := s.running - 1
    completed := s.completed + if setup.writesExtra c then 2 else 1 }

/-- Neither the events of the thread nor the counter end the process. -/
lemma handleCompletion_eq_ok_iff (hs : Serialized target instrs) (h : ThreadsInv instrs s)
    (hlt : i < kMaxThreads) (hbusy : (s.threads i).executing = true)
    (hdone : (s.threads i).done = true) :
    handleCompletion setup c s i = .ok s' ↔
      CompletionFits setup c s.completed (s.threads i) ∧ s' = afterCompletion setup c s i := by
  have hready := (h.thread i).busy hbusy hdone
  have hrunning := h.running_pos hlt hbusy
  obtain ⟨hpos, hidx⟩ := (h.thread i).pos hbusy
  have hcopyout : ∀ u : Unit, copyoutResults (s.threads i) = .ok u ↔
      ((s.threads i).failed = false → CopyoutsFit (s.threads i).copyoutPos) := by
    rw [copyoutResults, ← copyoutCallResults_eq_ok_iff hs hpos hidx]
    cases (s.threads i).failed with
    | true => simp
    | false => simp
  have hafter : ∀ n m, n + m = (if setup.writesExtra c then 2 else 1) →
      { setThread { s with completed := s.completed + n + m } i
          { s.threads i with executing := false } with running := s.running - 1 } =
        afterCompletion setup c s i := by
    intro n m hnm
    rw [afterCompletion, ← hnm, Nat.add_assoc]
    rfl
  simp only [handleCompletion, bind_eq_ok_iff, failIf_eq_ok_iff, hcopyout, writeOutput_eq_ok_iff,
    writeExtraOutput_eq_ok_iff, exists_const]
  constructor
  · rintro ⟨-, hcopy, s₁, ⟨⟨hfault, hslot⟩, rfl⟩, s₂, ⟨hextra, rfl⟩, -, h⟩
    cases h
    refine ⟨⟨hfault, hslot, fun h => (hextra h).2, hcopy⟩, ?_⟩
    exact hafter 1 _ (by split <;> rfl)
  · rintro ⟨hfits, rfl⟩
    refine ⟨by simp [hready, hdone, hbusy], hfits.copyouts, _, ⟨⟨hfits.fault, hfits.slot⟩, rfl⟩, _,
      ⟨fun h => ⟨hfits.fault, hfits.extraSlot h⟩, rfl⟩, ?_, ?_⟩
    · show ¬ s.running - 1 < 0
      omega
    · rw [← hafter 1 (if setup.writesExtra c then 1 else 0) (by split <;> rfl)]
      rfl

lemma ThreadsInv.afterCompletion (h : ThreadsInv instrs s) (setup : Setup) (c : Choice)
    (hlt : i < kMaxThreads) (hbusy : (s.threads i).executing = true)
    (hdone : (s.threads i).done = true) :
    ThreadsInv instrs (afterCompletion setup c s i) := by
  have hth : ThreadInv instrs { s.threads i with executing := false } :=
    .of_idle rfl ((h.thread i).busy hbusy hdone) hdone
  exact (h.finish hth hlt hbusy rfl).congr rfl rfl

end Completions

/-! ## Exits

Which steps end the process. -/

/-- The step does not end the process: an instruction fits, `schedule_call` has a thread to look
at, can create it if there is none and can reset its coverage, a completion fits, there is room for
the output, and no check of the environment fails. -/
def Guard (setup : Setup) (s : State) : Event → Prop
  | .start i fault =>
    canStart setup s i = true →
      fault = none ∧ ¬ (0 < (s.threads i).callProps.failNth ∧ 0 < (s.threads i).callProps.rerun)
  | .finish i _ fault => canFinish setup s i = true → fault = none
  | .main c =>
    match s.control with
    | .header => setup.coversFirst = true → c.fault = none
    | .fetch => ∀ instr rest, fetchInstr () s.inputPos = .ok ((instr, ()), rest) → InstrFits instr
    | .schedule i _ =>
      i < kMaxThreads ∧
        ((s.threads i).created = false →
          (setup.coverage = true → i < setup.openedKcov) ∧ c.fault = none) ∧
        ((s.threads i).executing = true → (s.threads i).done = true →
          CompletionFits setup c s.completed (s.threads i)) ∧
        ((s.threads i).done = true → setup.flagCoverage = true → c.fault = none)
    | .direct i =>
      ¬ (0 < (s.threads i).callProps.failNth ∧ 0 < (s.threads i).callProps.rerun) ∧
        CompletionFits setup c s.completed { s.threads i with failed := c.failed }
    | .waitCall i =>
      (s.threads i).done = true → CompletionFits setup c s.completed (s.threads i)
    | .poll i _ =>
      i < kMaxThreads → (s.threads i).executing = true → (s.threads i).done = true →
        CompletionFits setup c s.completed (s.threads i)
    | .unfinished i =>
      i < kMaxThreads → (s.threads i).executing = true →
        c.fault = none ∧ s.completed < kMaxCalls
    | .extra => setup.writesExtra c = true → c.fault = none ∧ s.completed < kMaxCalls
    | _ => True

/-- Without workers no call is in flight between two steps. -/
def Quiet (setup : Setup) (s : State) : Prop :=
  setup.threaded = false → ∀ i, (s.threads i).executing = false

/-- What the main thread relies on at the place it is at. -/
def ControlInv (setup : Setup) (instrs : List Instr) (s : State) : Prop :=
  match s.control with
  | .header =>
    ∃ n, s.inputPos = write n ++ encodeAll (instrs ++ [.eof]) ∧ Quiet setup s
  | .fetch => At instrs s.inputPos ∧ Quiet setup s
  | .schedule i idx =>
    At instrs s.inputPos ∧ Quiet setup s ∧ IndexFits idx ∧ (setup.threaded = false → i = 0)
  | .direct i =>
    At instrs s.inputPos ∧ i = 0 ∧ (s.threads i).executing = true ∧
      ∀ j, j ≠ i → (s.threads j).executing = false
  | .waitCall i =>
    At instrs s.inputPos ∧ setup.threaded = true ∧ i < kMaxThreads ∧
      (s.threads i).executing = true
  | .waitConfig _ => At instrs s.inputPos ∧ Quiet setup s
  | .poll _ .call | .poll _ (.config _) => At instrs s.inputPos ∧ setup.threaded = true
  | .extra | .returned => s.pending = false
  | .exited _ => False
  | _ => True

structure Inv (setup : Setup) (instrs : List Instr) (s : State) : Prop where
  threads : ThreadsInv instrs s
  control : ControlInv setup instrs s

section Exits

variable {target : Target} {instrs : List Instr} {setup : Setup} {c : Choice} {s s' : State}
  {i : ℕ} {fault : Option String}

lemma checkCall_eq_ok_iff {props : CallProps} {u : Unit} :
    checkCall props fault = .ok u ↔ fault = none ∧ ¬ (0 < props.failNth ∧ 0 < props.rerun) := by
  simp only [checkCall, bind_eq_ok_iff, failIf_eq_ok_iff, exists_const]
  cases fault with
  | none => simp [pure, Except.pure]
  | some msg => simp [throw, throwThe, MonadExceptOf.throw]

/-! ### Scheduling -/

/-- The thread when it has been created. -/
def createdThread (th : Thread) : Thread :=
  { th with created := true, executing := false, ready := false, done := true }

/-- The state with thread `i` created. -/
def withCreated (s : State) (i : ℕ) : State :=
  if (s.threads i).created then s else s.setThread i (createdThread (s.threads i))

lemma ensureCreated_eq_ok_iff :
    ensureCreated setup c s i = .ok s' ↔
      ((s.threads i).created = false →
        (setup.coverage = true → i < setup.openedKcov) ∧ c.fault = none) ∧
      s' = withCreated s i := by
  unfold ensureCreated withCreated
  cases hcreated : (s.threads i).created with
  | true => exact ok_eq_ok_iff (by simp)
  | false =>
    simp only [threadCreate, bind_eq_ok_iff, failIf_eq_ok_iff, check_eq_ok_iff, exists_const,
      Bool.false_eq_true, if_false, forall_const, not_and, not_le, pure, Except.pure,
      Except.ok.injEq, and_assoc, eq_comm (a := s')]
    rfl

lemma withCreated_of_executing (h : ThreadsInv instrs s)
    (hbusy : (s.threads i).executing = true) : withCreated s i = s := by
  rw [withCreated, if_pos ((h.thread i).created hbusy)]

lemma executing_withCreated (h : ThreadsInv instrs s) :
    ((withCreated s i).threads i).executing = (s.threads i).executing := by
  unfold withCreated
  split
  · rfl
  · rename_i hcreated
    have hidle : (s.threads i).executing = false := by
      rw [← Bool.not_eq_true]
      exact fun hbusy => hcreated ((h.thread i).created hbusy)
    rw [setThread, hidle]
    simp [createdThread]

lemma executing_withCreated_imp (h : ThreadsInv instrs s) (P : State → Prop) :
    (((withCreated s i).threads i).executing = true → P (withCreated s i)) ↔
      ((s.threads i).executing = true → P s) := by
  rw [executing_withCreated h]
  refine imp_congr_right fun hbusy => ?_
  rw [withCreated_of_executing h hbusy]

lemma created_withCreated : ((withCreated s i).threads i).created = true := by
  unfold withCreated
  split
  · assumption
  · simp [setThread, createdThread]

lemma ThreadsInv.withCreated (h : ThreadsInv instrs s) : ThreadsInv instrs (withCreated s i) := by
  have hsame := executing_withCreated (i := i) h
  unfold Executor.withCreated at hsame ⊢
  split
  · exact h
  · rename_i hcreated
    rw [if_neg hcreated] at hsame
    exact h.setThread (.of_idle rfl rfl rfl) (by simpa [State.setThread] using hsame)

/-- The state with the completed call of thread `i` handled, if there is one. -/
def withoutCall (setup : Setup) (c : Choice) (s : State) (i : ℕ) : State :=
  if (s.threads i).executing then afterCompletion setup c s i else s

/-- The thread when a call has been handed to it. -/
def startedThread (s : State) (i : ℕ) (copyoutIndex : UInt64) : Thread :=
  { s.threads i with
    copyoutPos := s.inputPos
    copyoutIndex
    done := false
    executing := true
    callProps := s.callProps
    ready := true }

/-- The state after the second half of `schedule_call`. -/
def started (s : State) (i : ℕ) (copyoutIndex : UInt64) : State :=
  { s.setThread i (startedThread s i copyoutIndex) with running := s.running + 1 }

/-- A call starts unless the coverage cannot be reset. -/
lemma startCall_eq_ok_iff (hready : (s.threads i).ready = false)
    (hdone : (s.threads i).done = true) (hidle : (s.threads i).executing = false) :
    startCall setup c s i idx = .ok s' ↔
      (setup.flagCoverage = true → c.fault = none) ∧ s' = started s i idx := by
  have hreset : ∀ {u : Unit}, coverReset setup c = .ok u ↔
      (setup.flagCoverage = true → c.fault = none) := by
    intro u
    unfold coverReset
    split
    · next hflag => simp [check_eq_ok_iff, hflag]
    · next hflag => simp [hflag]
  simp only [startCall, bind_eq_ok_iff, failIf_eq_ok_iff, hreset, exists_const, hready, hdone, hidle,
    Bool.false_eq_true, not_true_eq_false, or_self, not_false_eq_true, true_and, pure, Except.pure,
    Except.ok.injEq, eq_comm (a := s')]
  rfl

/-- The state after an iteration of the loop that looks for a thread. -/
def scheduled (setup : Setup) (c : Choice) (s : State) (i : ℕ) (copyoutIndex : UInt64) : State :=
  let s := withCreated s i
  if (s.threads i).done then
    afterSchedule setup (started (withoutCall setup c s i) i copyoutIndex) i
  else { s with control := .schedule (i + 1) copyoutIndex }

lemma completeIfExecuting_eq_ok_iff (hs : Serialized target instrs) (h : ThreadsInv instrs s)
    (hlt : i < kMaxThreads) (hdone : (s.threads i).done = true) :
    completeIfExecuting setup c s i = .ok s' ↔
      ((s.threads i).executing = true → CompletionFits setup c s.completed (s.threads i)) ∧
        s' = withoutCall setup c s i := by
  unfold completeIfExecuting withoutCall
  cases hbusy : (s.threads i).executing with
  | true =>
    rw [if_pos rfl, if_pos rfl, handleCompletion_eq_ok_iff hs h hlt hbusy hdone]
    simp
  | false => exact ok_eq_ok_iff (by simp)

lemma idle_withoutCall (h : ThreadsInv instrs s) (hcreated : (s.threads i).created = true)
    (hdone : (s.threads i).done = true) :
    let th := (withoutCall setup c s i).threads i
    th.ready = false ∧ th.done = true ∧ th.executing = false := by
  unfold withoutCall
  cases hbusy : (s.threads i).executing with
  | true =>
    have hready := (h.thread i).busy hbusy hdone
    simp [afterCompletion, setThread, hready, hdone]
  | false =>
    obtain ⟨hready, -⟩ := (h.thread i).idle hcreated hbusy
    simp [hready, hdone, hbusy]

/-- A call is scheduled exactly when the guard holds. -/
lemma scheduleCall_eq_ok_iff (hs : Serialized target instrs) (h : ThreadsInv instrs s)
    (hc : s.control = .schedule i idx) :
    scheduleCall setup c s i idx = .ok s' ↔
      Guard setup s (.main c) ∧ s' = scheduled setup c s i idx := by
  have hcore := h.withCreated (i := i)
  -- whether a call is completed does not depend on the creation of the thread
  have hfits := @executing_withCreated_imp _ _ i h fun s =>
    (s.threads i).done = true → CompletionFits setup c s.completed (s.threads i)
  -- a thread that is created is free at once, and its creation needs the same check
  have hreset : ((s.threads i).created = false →
        (setup.coverage = true → i < setup.openedKcov) ∧ c.fault = none) →
      ((((withCreated s i).threads i).done = true → setup.flagCoverage = true → c.fault = none) ↔
        ((s.threads i).done = true → setup.flagCoverage = true → c.fault = none)) := by
    intro hcreate
    unfold withCreated
    split
    · rfl
    · next hnew =>
      have hfault := (hcreate (by simpa using hnew)).2
      simp [hfault]
  rw [Guard, hc]
  dsimp only
  rw [← hfits]
  simp only [scheduleCall, bind_eq_ok_iff, failIf_eq_ok_iff, exists_const, not_le,
    ensureCreated_eq_ok_iff]
  constructor
  · rintro ⟨hlt, _, ⟨hcreate, rfl⟩, hrest⟩
    rw [← hreset hcreate]
    cases hdone : ((withCreated s i).threads i).done with
    | false =>
      rw [hdone, if_neg (by simp)] at hrest
      cases hrest
      refine ⟨⟨hlt, hcreate, by simp, by simp⟩, ?_⟩
      simp [scheduled, hdone]
    | true =>
      rw [hdone, if_pos rfl, bind_eq_ok_iff] at hrest
      obtain ⟨s₂, hcomplete, hrest⟩ := hrest
      obtain ⟨hfit, rfl⟩ := (completeIfExecuting_eq_ok_iff hs hcore hlt hdone).mp hcomplete
      obtain ⟨hready, hdone₂, hidle⟩ := idle_withoutCall hcore created_withCreated hdone
      obtain ⟨s₃, hstart, hrest⟩ := bind_eq_ok_iff.1 hrest
      obtain ⟨hfault, rfl⟩ := (startCall_eq_ok_iff hready hdone₂ hidle).mp hstart
      cases hrest
      refine ⟨⟨hlt, hcreate, fun hbusy _ => hfit hbusy, fun _ => hfault⟩, ?_⟩
      simp [scheduled, hdone]
  · rintro ⟨⟨hlt, hcreate, hfit, hfault⟩, rfl⟩
    rw [← hreset hcreate] at hfault
    refine ⟨hlt, _, ⟨hcreate, rfl⟩, ?_⟩
    cases hdone : ((withCreated s i).threads i).done with
    | false =>
      simp [scheduled, hdone, pure, Except.pure]
    | true =>
      obtain ⟨hready, hdone₂, hidle⟩ := idle_withoutCall hcore created_withCreated hdone
      rw [if_pos rfl, bind_eq_ok_iff]
      refine ⟨_, (completeIfExecuting_eq_ok_iff hs hcore hlt hdone).mpr
        ⟨fun hbusy => hfit hbusy hdone, rfl⟩, bind_eq_ok_iff.2 ⟨_,
          (startCall_eq_ok_iff hready hdone₂ hidle).mpr ⟨hfault hdone, rfl⟩, ?_⟩⟩
      simp [scheduled, hdone, pure, Except.pure]

lemma withCreated_frame : (withCreated s i).inputPos = s.inputPos ∧
    ∀ j, j ≠ i → (withCreated s i).threads j = s.threads j := by
  unfold withCreated
  split
  · exact ⟨rfl, fun _ _ => rfl⟩
  · exact ⟨rfl, fun j hj => update_of_ne hj _ _⟩

lemma withoutCall_frame : (withoutCall setup c s i).inputPos = s.inputPos ∧
    ∀ j, j ≠ i → (withoutCall setup c s i).threads j = s.threads j := by
  unfold withoutCall
  split
  · exact ⟨rfl, fun j hj => update_of_ne hj _ _⟩
  · exact ⟨rfl, fun _ _ => rfl⟩

lemma Quiet.withCreated (h : ThreadsInv instrs s) (hquiet : Quiet setup s) :
    Quiet setup (withCreated s i) := by
  intro hthreaded j
  by_cases hj : j = i
  · rw [hj, executing_withCreated h]
    exact hquiet hthreaded i
  · rw [withCreated_frame.2 j hj]
    exact hquiet hthreaded j

lemma ThreadsInv.withoutCall (h : ThreadsInv instrs s) (hlt : i < kMaxThreads)
    (hdone : (s.threads i).done = true) :
    ThreadsInv instrs (Executor.withoutCall setup c s i) := by
  unfold Executor.withoutCall
  split
  · rename_i hbusy
    exact h.afterCompletion setup c hlt hbusy hdone
  · exact h

lemma ThreadsInv.started (h : ThreadsInv instrs s) (hlt : i < kMaxThreads)
    (hcreated : (s.threads i).created = true) (hidle : (s.threads i).executing = false)
    (hat : At instrs s.inputPos) {idx : UInt64} (hidx : IndexFits idx) :
    ThreadsInv instrs (started s i idx) := by
  refine h.begin ?_ hlt hidle rfl
  exact
    { created := fun _ => hcreated
      idle := fun _ h => by cases h
      busy := fun _ h => by cases h
      pos := fun _ => ⟨hat, hidx⟩ }

lemma created_withoutCall (hcreated : (s.threads i).created = true) :
    ((withoutCall setup c s i).threads i).created = true := by
  unfold withoutCall
  split
  · simp [afterCompletion, setThread, hcreated]
  · exact hcreated

lemma Inv.afterSchedule (h : ThreadsInv instrs s) (hat : At instrs s.inputPos)
    (hlt : i < kMaxThreads) (hbusy : (s.threads i).executing = true)
    (hdirect : setup.threaded = false → i = 0 ∧ ∀ j, j ≠ i → (s.threads j).executing = false) :
    Inv setup instrs (Executor.afterSchedule setup s i) := by
  unfold Executor.afterSchedule
  cases hthreaded : setup.threaded with
  | false =>
    obtain ⟨hzero, hothers⟩ := hdirect hthreaded
    rw [Bool.and_false, if_neg (by simp), if_neg (by simp)]
    exact ⟨h.congr rfl rfl, hat, hzero, hbusy, hothers⟩
  | true =>
    split
    · exact ⟨h.congr rfl rfl, hat, fun hnot => by simp [hthreaded] at hnot⟩
    · exact ⟨h.congr rfl rfl, hat, hthreaded, hlt, hbusy⟩

/-- Scheduling a call keeps the invariant. -/
lemma Inv.scheduled (h : ThreadsInv instrs s) (hat : At instrs s.inputPos)
    (hquiet : Quiet setup s) {idx : UInt64} (hidx : IndexFits idx)
    (hzero : setup.threaded = false → i = 0) (hlt : i < kMaxThreads) :
    Inv setup instrs (scheduled setup c s i idx) := by
  have hcore := h.withCreated (i := i)
  have hquiet₁ := hquiet.withCreated (i := i) h
  unfold Executor.scheduled
  dsimp only
  split
  · rename_i hdone
    let s₁ := withoutCall setup c (withCreated s i) i
    have hfree : ThreadsInv instrs s₁ := hcore.withoutCall hlt hdone
    have hothers : ∀ j, j ≠ i → s₁.threads j = s.threads j :=
      fun j hj => (withoutCall_frame.2 j hj).trans (withCreated_frame.2 j hj)
    have hidle : (s₁.threads i).executing = false :=
      (idle_withoutCall hcore created_withCreated hdone).2.2
    have hpos : At instrs s₁.inputPos := by
      rw [withoutCall_frame.1, withCreated_frame.1]
      exact hat
    refine Inv.afterSchedule (hfree.started hlt (created_withoutCall created_withCreated) hidle
      hpos hidx) hpos hlt ?_ ?_
    · simp [started, setThread, startedThread]
    · intro hthreaded
      refine ⟨hzero hthreaded, ?_⟩
      intro j hj
      have hsame : (started s₁ i idx).threads j = s.threads j :=
        (update_of_ne hj _ _).trans (hothers j hj)
      rw [hsame]
      exact hquiet hthreaded j
  · rename_i hdone
    refine ⟨hcore.congr rfl rfl, ?_, hquiet₁, hidx, ?_⟩
    · show At instrs (withCreated s i).inputPos
      rw [withCreated_frame.1]
      exact hat
    · -- without workers the first thread is always free
      intro hthreaded
      exact absurd ((hcore.thread i).idle created_withCreated (hquiet₁ hthreaded i)).2 hdone

/-! ### Steps -/

/-- Either the step meets the condition and goes on in a good state, or it does not and ends the
process. -/
def Settled (setup : Setup) (instrs : List Instr) (s : State) (e : Event) : Prop :=
  (Guard setup s e ∧ ∃ s', e.next setup s = .ok s' ∧ Inv setup instrs s') ∨
    (¬ Guard setup s e ∧ ∃ msg, e.next setup s = .error msg)

lemma settled_of_eq_ok_iff {e : Event} {t : State}
    (h : ∀ s', e.next setup s = .ok s' ↔ Guard setup s e ∧ s' = t)
    (hinv : Guard setup s e → Inv setup instrs t) : Settled setup instrs s e := by
  by_cases hguard : Guard setup s e
  · exact .inl ⟨hguard, t, (h t).mpr ⟨hguard, rfl⟩, hinv hguard⟩
  · refine .inr ⟨hguard, ?_⟩
    cases hnext : e.next setup s with
    | ok s' => exact absurd ((h s').mp hnext).1 hguard
    | error msg => exact ⟨msg, rfl⟩

lemma settled_of_eq_ok {e : Event} {t : State} (hguard : Guard setup s e)
    (h : e.next setup s = .ok t) (hinv : Inv setup instrs t) : Settled setup instrs s e :=
  .inl ⟨hguard, t, h, hinv⟩

section Controls

variable (hs : Serialized target instrs) (hsys : setup.syscalls = target.syscalls.length)
  (h : Inv setup instrs s)

include h

lemma Inv.control_eq {k : Control} (hc : s.control = k) :
    ControlInv setup instrs { s with control := k } := by
  subst hc
  exact h.control

/-- The header is read. -/
lemma settled_header (hc : s.control = .header) : Settled setup instrs s (.main c) := by
  obtain ⟨n, hpos, hquiet⟩ := h.control_eq hc
  change s.inputPos = _ at hpos
  have hread := parses_readInput n (encodeAll (instrs ++ [.eof]))
  refine settled_of_eq_ok_iff
    (t := { s with inputPos := encodeAll (instrs ++ [.eof]), control := .fetch }) ?_ ?_
  · intro s'
    rw [Guard, hc]
    simp only [Event.next, mainStep, hc, hpos, hread]
    cases setup.coversFirst with
    | false => exact ok_eq_ok_iff (by simp)
    | true =>
      simp only [if_true, bind_eq_ok_iff, check_eq_ok_iff, exists_const, forall_const,
        Except.ok.injEq, exists_eq_left', pure, Except.pure, eq_comm (b := s')]
  · exact fun _ => ⟨h.threads.congr rfl rfl, ⟨[], instrs, rfl, rfl⟩, hquiet⟩

include hs hsys in
/-- The next instruction is read and checked. -/
lemma settled_fetch (hc : s.control = .fetch) : Settled setup instrs s (.main c) := by
  obtain ⟨hat, hquiet⟩ := h.control_eq hc
  obtain ⟨instr, rest, hfetch, hbelow, hreadable, hnext⟩ := hat.fetch hs
  have hnumber : checkNumber setup instr = .ok () := by
    cases instr with
    | call id copyoutIdx args =>
      rw [checkNumber, failIf_eq_ok_iff, hsys]
      exact Nat.not_le.mpr hreadable.1
    | _ => rfl
  have hguard : Guard setup s (.main c) ↔ InstrFits instr := by
    rw [Guard, hc]
    constructor
    · exact fun hall => hall instr rest hfetch
    · intro hfits instr' rest' hfetch'
      rw [hfetch] at hfetch'
      cases hfetch'
      exact hfits
  refine settled_of_eq_ok_iff (t := execInstr { s with inputPos := rest } instr) ?_ ?_
  · intro s'
    rw [hguard, ← checkInstr_eq_ok_iff hbelow]
    simp only [Event.next, mainStep, hc, fetchStep, hfetch, hnumber, bind, Except.bind]
    cases checkInstr instr with
    | error msg => simp
    | ok u =>
      simp only [pure, Except.pure, Except.ok.injEq, true_and]
      exact eq_comm
  · intro _
    have hthreads : ThreadsInv instrs { s with inputPos := rest } := h.threads.congr rfl rfl
    cases instr with
    | eof =>
      refine ⟨hthreads.congr rfl rfl, ?_⟩
      show ControlInv setup instrs
        { s with inputPos := rest, control := if 0 < s.running then .waitEof else .restore }
      split <;> trivial
    | copyin _ | copyout _ | setProps _ =>
      refine ⟨hthreads.congr rfl rfl, ?_⟩
      rw [ControlInv, execInstr, hc]
      exact ⟨hnext.resolve_left (by simp), hquiet⟩
    | kconfuzzConfig i => exact ⟨hthreads.congr rfl rfl, hnext.resolve_left (by simp), hquiet⟩
    | call id copyoutIdx args =>
      exact ⟨hthreads.congr rfl rfl, hnext.resolve_left (by simp), hquiet, hbelow.1, fun _ => rfl⟩

include hs in
lemma settled_schedule (hc : s.control = .schedule i idx) : Settled setup instrs s (.main c) := by
  obtain ⟨hat, hquiet, hidx, hzero⟩ := h.control_eq hc
  refine settled_of_eq_ok_iff (t := scheduled setup c s i idx) ?_ ?_
  · intro s'
    rw [← scheduleCall_eq_ok_iff hs h.threads hc, Event.next, mainStep, hc]
  · intro hguard
    rw [Guard, hc] at hguard
    exact Inv.scheduled h.threads hat hquiet hidx hzero hguard.1

include hs in
/-- Without threads the call is executed at once. -/
lemma settled_direct (hc : s.control = .direct i) : Settled setup instrs s (.main c) := by
  obtain ⟨hat, hzero, hbusy, hothers⟩ := h.control_eq hc
  have hlt : i < kMaxThreads := by
    rw [hzero]
    decide
  -- the thread and the state when the call is over
  let th : Thread := { s.threads i with ready := false, done := true, failed := c.failed }
  let s₁ := s.setThread i th
  have hself : s₁.threads i = th := update_self _ _ _
  have hbusy₁ : (s₁.threads i).executing = true := by rw [hself]; exact hbusy
  have hdone₁ : (s₁.threads i).done = true := by rw [hself]
  have hthreads : ThreadsInv instrs s₁ := by
    refine h.threads.setThread ?_ rfl
    exact { h.threads.thread i with idle := fun _ _ => ⟨rfl, rfl⟩, busy := fun _ _ => rfl }
  have hcomplete : ∀ s', handleCompletion setup c s₁ i = .ok s' ↔
      CompletionFits setup c s.completed th ∧ s' = afterCompletion setup c s₁ i := by
    intro s'
    rw [handleCompletion_eq_ok_iff hs hthreads hlt hbusy₁ hdone₁, hself]
    rfl
  have hfits : CompletionFits setup c s.completed { s.threads i with failed := c.failed } ↔
      CompletionFits setup c s.completed th :=
    ⟨fun hf => ⟨hf.fault, hf.slot, hf.extraSlot, hf.copyouts⟩,
      fun hf => ⟨hf.fault, hf.slot, hf.extraSlot, hf.copyouts⟩⟩
  refine settled_of_eq_ok_iff
    (t := { afterCompletion setup c s₁ i with callProps := .zero, control := .fetch }) ?_ ?_
  · intro s'
    rw [Guard, hc]
    dsimp only
    rw [hfits]
    simp only [Event.next, mainStep, hc, executeDirectly, bind_eq_ok_iff, failIf_eq_ok_iff,
      checkCall_eq_ok_iff, exists_const]
    constructor
    · rintro ⟨-, ⟨hfault, hprops⟩, s₂, hs₂, hs'⟩
      obtain ⟨hfit, rfl⟩ := (hcomplete s₂).mp hs₂
      cases hs'
      exact ⟨⟨hprops, hfit⟩, rfl⟩
    · rintro ⟨⟨hprops, hfit⟩, rfl⟩
      exact ⟨not_not.mpr hzero, ⟨hfit.fault, hprops⟩, _, (hcomplete _).mpr ⟨hfit, rfl⟩, rfl⟩
  · intro _
    refine ⟨(hthreads.afterCompletion setup c hlt hbusy₁ hdone₁).congr rfl rfl, hat, ?_⟩
    intro hthreaded j
    by_cases hj : j = i
    · rw [hj]
      simp [afterCompletion, setThread]
    · have hsame : (afterCompletion setup c s₁ i).threads j = s.threads j :=
        (update_of_ne hj _ _).trans (update_of_ne hj _ _)
      show ((afterCompletion setup c s₁ i).threads j).executing = false
      rw [hsame]
      exact hothers j hj

include hs in
/-- The executor waits for a call. -/
lemma settled_waitCall (hc : s.control = .waitCall i) : Settled setup instrs s (.main c) := by
  obtain ⟨hat, hthreaded, hlt, hbusy⟩ := h.control_eq hc
  cases hdone : (s.threads i).done with
  | true =>
    refine settled_of_eq_ok_iff
      (t := { afterCompletion setup c s i with control := .poll 0 .call }) ?_ ?_
    · intro s'
      rw [Guard, hc]
      simp only [Event.next, mainStep, hc, hdone, if_true, forall_const]
      exact bind_pure_eq_ok_iff (fun _ => handleCompletion_eq_ok_iff hs h.threads hlt hbusy hdone) _
    · intro _
      exact ⟨(h.threads.afterCompletion setup c hlt hbusy hdone).congr rfl rfl, hat, hthreaded⟩
  | false =>
    have hguard : Guard setup s (.main c) := by
      rw [Guard, hc]
      simp [hdone]
    cases hexpired : c.expired with
    | true =>
      refine settled_of_eq_ok hguard (t := { s with control := .poll 0 .call }) ?_
        ⟨h.threads.congr rfl rfl, hat, hthreaded⟩
      simp [Event.next, mainStep, hc, hdone, hexpired]
    | false =>
      refine settled_of_eq_ok hguard (t := s) ?_ h
      simp [Event.next, mainStep, hc, hdone, hexpired]

/-- The executor waits before it applies an action. -/
lemma settled_waitConfig {a : ConfigAction} (hc : s.control = .waitConfig a) :
    Settled setup instrs s (.main c) := by
  obtain ⟨hat, hquiet⟩ := h.control_eq hc
  have hguard : Guard setup s (.main c) := by
    rw [Guard, hc]
    trivial
  cases hwait : setup.threaded && decide (0 < s.running) && !c.expired with
  | true =>
    have hthreaded : setup.threaded = true := by
      simp only [Bool.and_eq_true] at hwait
      exact hwait.1.1
    refine settled_of_eq_ok hguard (t := { s with control := .poll 0 (.config a) }) ?_
      ⟨h.threads.congr rfl rfl, hat, hthreaded⟩
    simp only [Event.next, mainStep, hc, hwait, if_true]
  | false =>
    refine settled_of_eq_ok hguard (t := applyConfig setup c s a) ?_
      ⟨h.threads.congr rfl rfl, hat, hquiet⟩
    simp only [Event.next, mainStep, hc, hwait, Bool.false_eq_true, if_false]

include hs in
/-- The executor looks for calls that have finished. -/
lemma settled_poll {after : After} (hc : s.control = .poll i after) :
    Settled setup instrs s (.main c) := by
  have hcontrol := h.control_eq hc
  by_cases hlt : i < kMaxThreads
  · have hpoll : ∀ s₁ : State, ThreadsInv instrs s₁ → s₁.inputPos = s.inputPos →
        Inv setup instrs { s₁ with control := .poll (i + 1) after } := by
      intro s₁ hthreads hpos
      refine ⟨hthreads.congr rfl rfl, ?_⟩
      cases after with
      | call | config a => exact ⟨by rw [hpos]; exact hcontrol.1, hcontrol.2⟩
      | eof => trivial
    cases hbusy : (s.threads i).executing && (s.threads i).done with
    | true =>
      obtain ⟨hexec, hdone⟩ := Bool.and_eq_true_iff.mp hbusy
      have hcomplete : completeIfDone setup c s i = handleCompletion setup c s i := by
        rw [completeIfDone, hbusy, if_pos rfl]
      refine settled_of_eq_ok_iff
        (t := { afterCompletion setup c s i with control := .poll (i + 1) after }) ?_ ?_
      · intro s'
        rw [Guard, hc]
        simp only [Event.next, mainStep, hc, hlt, if_true, hcomplete, forall_const, hexec, hdone]
        exact bind_pure_eq_ok_iff
          (fun _ => handleCompletion_eq_ok_iff hs h.threads hlt hexec hdone) _
      · intro _
        exact hpoll _ (h.threads.afterCompletion setup c hlt hexec hdone) rfl
    | false =>
      have hguard : Guard setup s (.main c) := by
        rw [Guard, hc]
        intro _ hexec hdone
        rw [hexec, hdone] at hbusy
        cases hbusy
      refine settled_of_eq_ok hguard (t := { s with control := .poll (i + 1) after }) ?_
        (hpoll s h.threads rfl)
      simp [Event.next, mainStep, hc, hlt, completeIfDone, hbusy, bind, Except.bind, pure,
        Except.pure]
  · have hguard : Guard setup s (.main c) := by
      rw [Guard, hc]
      intro hlt'
      exact absurd hlt' hlt
    refine settled_of_eq_ok hguard (t := afterPoll s after) ?_ ?_
    · simp only [Event.next, mainStep, hc, hlt, if_false]
    · cases after with
      | call | config a =>
        exact ⟨h.threads.congr rfl rfl, hcontrol.1, fun hnot => by simp [hcontrol.2] at hnot⟩
      | eof => exact ⟨h.threads.congr rfl rfl, trivial⟩

lemma settled_waitEof (hc : s.control = .waitEof) : Settled setup instrs s (.main c) := by
  have hguard : Guard setup s (.main c) := by
    rw [Guard, hc]
    trivial
  by_cases hrunning : 0 < s.running
  · refine settled_of_eq_ok hguard
      (t := { s with control := if c.expired then .unfinished 0 else .poll 0 .eof }) ?_
      ⟨h.threads.congr rfl rfl, ?_⟩
    · simp only [Event.next, mainStep, hc, hrunning, if_true]
    · cases c.expired <;> trivial
  · refine settled_of_eq_ok hguard (t := { s with control := .restore }) ?_
      ⟨h.threads.congr rfl rfl, trivial⟩
    simp only [Event.next, mainStep, hc, hrunning, if_false]

/-- At the end the executor handles calls that are still running. -/
lemma settled_unfinished (hc : s.control = .unfinished i) : Settled setup instrs s (.main c) := by
  by_cases hlt : i < kMaxThreads
  · cases hbusy : (s.threads i).executing with
    | true =>
      refine settled_of_eq_ok_iff
        (t := { s with completed := s.completed + 1, control := .unfinished (i + 1) }) ?_ ?_
      · intro s'
        rw [Guard, hc]
        simp only [Event.next, mainStep, hc, hlt, if_true, writeUnfinished, hbusy, forall_const]
        exact bind_pure_eq_ok_iff (fun _ => writeOutput_eq_ok_iff) _
      · intro _
        exact ⟨h.threads.congr rfl rfl, trivial⟩
    | false =>
      refine settled_of_eq_ok (t := { s with control := .unfinished (i + 1) }) ?_ ?_
        ⟨h.threads.congr rfl rfl, trivial⟩
      · rw [Guard, hc]
        simp [hbusy]
      · simp [Event.next, mainStep, hc, hlt, writeUnfinished, hbusy, bind, Except.bind, pure,
          Except.pure]
  · refine settled_of_eq_ok (t := { s with control := .restore }) ?_ ?_
      ⟨h.threads.congr rfl rfl, trivial⟩
    · rw [Guard, hc]
      intro hlt'
      exact absurd hlt' hlt
    · simp only [Event.next, mainStep, hc, hlt, if_false]

lemma settled_restore (hc : s.control = .restore) : Settled setup instrs s (.main c) := by
  refine settled_of_eq_ok (t := restoreConfig setup c s) ?_ ?_ ⟨h.threads.congr rfl rfl, rfl⟩
  · rw [Guard, hc]
    trivial
  · simp only [Event.next, mainStep, hc]

lemma settled_extra (hc : s.control = .extra) : Settled setup instrs s (.main c) := by
  have hpending := h.control_eq hc
  let s₁ := { s with completed := s.completed + if setup.writesExtra c then 1 else 0 }
  let again := setup.extraCoverage && !c.expired && decide (s₁.completed < kMaxCalls)
  refine settled_of_eq_ok_iff
    (t := { s₁ with control := if again then .extra else .returned }) ?_ ?_
  · intro s'
    rw [Guard, hc]
    simp only [Event.next, mainStep, hc]
    exact bind_pure_eq_ok_iff (fun _ => writeExtraOutput_eq_ok_iff) _
  · intro _
    refine ⟨h.threads.congr rfl rfl, ?_⟩
    cases again <;> exact hpending

lemma Inv.setThread {th : Thread} (hth : ThreadInv instrs th)
    (hsame : th.executing = (s.threads i).executing) : Inv setup instrs (s.setThread i th) := by
  have hexec : ∀ j, ((s.setThread i th).threads j).executing = (s.threads j).executing := by
    intro j
    by_cases hj : j = i
    · rw [hj]
      simpa [State.setThread] using hsame
    · exact congrArg Thread.executing (update_of_ne hj _ _)
  refine ⟨h.threads.setThread hth hsame, ?_⟩
  have hcontrol := h.control
  unfold ControlInv Quiet at hcontrol ⊢
  simp only [hexec]
  exact hcontrol

/-- A thread starts its call. -/
lemma settled_start : Settled setup instrs s (.start i fault) := by
  cases hstart : canStart setup s i with
  | false =>
    refine settled_of_eq_ok (t := s) ?_ ?_ h
    · rw [Guard, hstart]
      simp
    · simp [Event.next, hstart]
  | true =>
    have hthread := h.threads.thread i
    refine settled_of_eq_ok_iff (t := s.setThread i { s.threads i with ready := false }) ?_ ?_
    · intro s'
      simp only [Event.next, Guard, hstart, if_true, forall_const, bind_eq_ok_iff,
        checkCall_eq_ok_iff, exists_const]
      constructor
      · rintro ⟨hcheck, hs'⟩
        cases hs'
        exact ⟨hcheck, rfl⟩
      · rintro ⟨hcheck, rfl⟩
        exact ⟨hcheck, rfl⟩
    · intro _
      refine h.setThread ?_ rfl
      exact
        { hthread with
          idle := fun hcreated hidle => ⟨rfl, (hthread.idle hcreated hidle).2⟩
          busy := fun _ _ => rfl }

/-- A thread finishes its call. -/
lemma settled_finish {failed : Bool} : Settled setup instrs s (.finish i failed fault) := by
  cases hfinish : canFinish setup s i with
  | false =>
    refine settled_of_eq_ok (t := s) ?_ (by simp [Event.next, hfinish]) h
    simp [Guard, hfinish]
  | true =>
    have hthread := h.threads.thread i
    have hbusy : (s.threads i).executing = true ∧ (s.threads i).ready = false := by
      simp only [canFinish, Bool.and_eq_true, Bool.not_eq_true'] at hfinish
      exact ⟨hfinish.1.1.2, hfinish.1.2⟩
    refine settled_of_eq_ok_iff
      (t := s.setThread i { s.threads i with done := true, failed }) ?_ fun _ => h.setThread ?_ rfl
    · intro s'
      simp only [Event.next, Guard, hfinish, if_true, forall_const]
      cases fault with
      | none => exact ok_eq_ok_iff rfl
      | some msg => simp
    · exact
        { hthread with
          idle := fun hcreated hidle => ⟨(hthread.idle hcreated hidle).1, rfl⟩
          busy := fun _ _ => hbusy.2 }

include hs hsys in
/-- A step goes on exactly when it meets the condition, and goes on in a good state. -/
lemma settled (hfinal : s.control.isFinal = false) (e : Event) : Settled setup instrs s e := by
  cases e with
  | start i fault => exact settled_start h
  | finish i failed fault => exact settled_finish h
  | main c =>
    cases hc : s.control with
    | header => exact settled_header h hc
    | fetch => exact settled_fetch hs hsys h hc
    | schedule i idx => exact settled_schedule hs h hc
    | direct i => exact settled_direct hs h hc
    | waitCall i => exact settled_waitCall hs h hc
    | waitConfig a => exact settled_waitConfig h hc
    | poll i after => exact settled_poll hs h hc
    | waitEof => exact settled_waitEof h hc
    | unfinished i => exact settled_unfinished h hc
    | restore => exact settled_restore h hc
    | extra => exact settled_extra h hc
    | returned | exited msg => simp [hc, Control.isFinal] at hfinal

end Controls

end Exits

end KConfuzz.Executor
