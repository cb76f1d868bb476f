import KConfuzz.Dispatcher.Pool

/-!
# Instances that wait for a job

An instance starts to wait because it has read that it is reserved. When it is released later, the
offer at the end of `free` reaches it if it waits by then. If the offer comes between the two steps
of the instance, it is dropped and the instance waits for a job that only an unrelated `Run` can
give. In every run without such an offer, an instance that waits is reserved, or its context is
cancelled, or the offer is still to come.
-/

namespace KConfuzz.Dispatcher

open List

variable {J : Type} {n : ℕ} {p p' : Pool J n}

/-- The instance waits, or has read that it should. -/
def Phase.willWait : Phase J → Bool
  | .ready none _ => true
  | .waiting _ => true
  | _ => false

/-- The instance has read that it should wait and does not wait yet. -/
def Phase.aboutToWait : Phase J → Bool
  | .ready none _ => true
  | _ => false

lemma Phase.willWait_iff (phase : Phase J) :
    phase.willWait = true ↔ phase.aboutToWait = true ∨ phase.isWaiting = true := by
  cases phase with
  | ready job jobChan => cases job <;> simp [willWait, aboutToWait, isWaiting]
  | _ => simp [willWait, aboutToWait, isWaiting]

/-! ## The invariant -/

/-- Something still keeps the instance from waiting in vain. -/
def Pool.Cared (p : Pool J n) (i : Fin n) : Prop :=
  (p.instances i).jobChan = true ∨ (p.instances i).cancelled = true ∨
    .send i (p.instances i).switchToJob p.defaultJob ∈ p.todo

structure Pool.Inv (p : Pool J n) : Prop where
  /-- An instance has a job or is reserved. -/
  job_iff : ∀ i, (p.instances i).job = none ↔ (p.instances i).jobChan = true
  /-- An instance that waits or is about to is taken care of. -/
  cared : ∀ i, (p.instances i).phase.willWait = true → p.Cared i
  /-- An instance that is not reserved has the current default job, or will get it. -/
  upToDate : ∀ i, (p.instances i).jobChan = false →
    (p.instances i).job = some p.defaultJob ∨ .free i ∈ p.todo
  /-- Only the current default job is offered. -/
  offers : ∀ i switchToJob job, .send i switchToJob job ∈ p.todo → job = p.defaultJob

lemma inv_newPool (n : ℕ) (defaultJob : J) : (newPool n defaultJob).Inv where
  job_iff _ := by simp [newPool]
  cared _ h := by cases h
  upToDate _ _ := .inl rfl
  offers _ _ _ h := by cases h

/-- The instance a step of an operation is about. -/
def Todo.inst : Todo J n → Fin n
  | .reserve i | .free i | .send i _ _ => i

section Behind

variable {first : Todo J n} {todo : List (Todo J n)} (htodo : p.todo = first :: todo)

include htodo

lemma Pool.mem_behind {t : Todo J n} (ht : t ∈ p.todo) (hne : t.inst ≠ first.inst) : t ∈ todo := by
  rw [htodo] at ht
  exact (mem_cons.mp ht).resolve_left fun heq => hne (congrArg Todo.inst heq)

lemma Pool.Inv.offers_behind (hinv : p.Inv) (i : Fin n) (switchToJob : ℕ) (job : J)
    (hmem : .send i switchToJob job ∈ todo) : job = p.defaultJob := by
  refine hinv.offers i switchToJob job ?_
  rw [htodo]
  exact mem_cons_of_mem _ hmem

end Behind

/-- Changing one instance: what has to be shown is about that instance. -/
lemma Pool.Inv.set (hinv : p.Inv) {i : Fin n} {inst : PoolInstance J} {todo : List (Todo J n)}
    (hjob : inst.job = none ↔ inst.jobChan = true)
    (hcared : inst.phase.willWait = true → inst.jobChan = true ∨ inst.cancelled = true ∨
      .send i inst.switchToJob p.defaultJob ∈ todo)
    (hupToDate : inst.jobChan = false → inst.job = some p.defaultJob ∨ .free i ∈ todo)
    (hrest : ∀ t ∈ p.todo, t.inst ≠ i → t ∈ todo)
    (hoffers : ∀ k switchToJob job, .send k switchToJob job ∈ todo → job = p.defaultJob) :
    { p.set i inst with todo := todo }.Inv := by
  have hself := p.set_instances_self i inst
  have hother : ∀ k, k ≠ i → (p.set i inst).instances k = p.instances k :=
    fun k hk => p.set_instances_of_ne hk inst
  refine { job_iff := ?_, cared := ?_, upToDate := ?_, offers := hoffers }
  · intro k
    by_cases hk : k = i
    · subst hk
      rw [hself]
      exact hjob
    · rw [hother k hk]
      exact hinv.job_iff k
  · intro k hwait
    unfold Cared
    by_cases hk : k = i
    · subst hk
      rw [hself] at hwait ⊢
      exact hcared hwait
    · rw [hother k hk] at hwait ⊢
      exact (hinv.cared k hwait).imp_right (.imp_right fun hmem => hrest _ hmem hk)
  · intro k hreserved
    by_cases hk : k = i
    · subst hk
      rw [hself] at hreserved ⊢
      exact hupToDate hreserved
    · rw [hother k hk] at hreserved ⊢
      exact (hinv.upToDate k hreserved).imp_right fun hmem => hrest _ hmem hk

/-! ## Steps of an instance -/

section InstStep

variable {inst inst' : PoolInstance J} {stopped : Bool} {s : InstStep J}

/-- The loop of an instance does not change what the instance should do, and it starts to wait
only if it is reserved or was about to. -/
lemma PoolInstance.step_cases (h : inst.step stopped s = some inst') :
    inst'.job = inst.job ∧ inst'.jobChan = inst.jobChan ∧
    (inst'.phase.willWait = true → inst'.switchToJob = inst.switchToJob ∧
      inst'.cancelled = inst.cancelled ∧ (inst.phase.willWait = true ∨ inst.job = none)) := by
  cases s with
  | read =>
    rw [step] at h
    split at h
    · cases h
      refine ⟨rfl, rfl, fun hwait => ⟨rfl, rfl, .inr ?_⟩⟩
      cases hjob : inst.job with
      | none => rfl
      | some job =>
        rw [hjob] at hwait
        cases hwait
    · cases h
  | act =>
    rw [step] at h
    split at h
    · cases h
      exact ⟨rfl, rfl, fun hwait => by cases hwait⟩
    · rename_i hphase
      cases h
      exact ⟨rfl, rfl, fun _ => ⟨rfl, rfl, .inl (by rw [hphase]; rfl)⟩⟩
    · cases h
  | _ =>
    -- the phase is one in which the instance does not wait
    rw [step] at h
    split at h
    · cases h
      exact ⟨rfl, rfl, fun hwait => by cases hwait⟩
    · cases h

/-- A step of the loop of an instance keeps the invariant. -/
lemma Pool.Inv.instStep (hinv : p.Inv) {i : Fin n}
    (h : (p.instances i).step stopped s = some inst') : (p.set i inst').Inv := by
  obtain ⟨hjob, hchan, hwait⟩ := PoolInstance.step_cases h
  refine hinv.set ?_ ?_ ?_ (fun _ hmem _ => hmem) hinv.offers
  · rw [hjob, hchan]
    exact hinv.job_iff i
  · intro hwaits
    obtain ⟨hswitch, hcancelled, hbefore⟩ := hwait hwaits
    rw [hchan, hswitch, hcancelled]
    rcases hbefore with hwaited | hnone
    · exact hinv.cared i hwaited
    · exact .inl ((hinv.job_iff i).mp hnone)
  · intro hfree
    rw [hjob]
    exact hinv.upToDate i (hchan ▸ hfree)

end InstStep

/-! ## Steps of an operation -/

section Work

/-- An operation that is only about to begin has offered nothing yet. -/
lemma Pool.Inv.of_unlocked (hinv : p.Inv) (hunlocked : p.unlocked) {defaultJob : J}
    {paused : Bool} {todo : List (Todo J n)}
    (htodo : ∀ i switchToJob job, .send i switchToJob job ∉ todo)
    (hfree : ∀ i, (p.instances i).jobChan = false →
      (p.instances i).job = some defaultJob ∨ .free i ∈ todo) :
    { p with defaultJob := defaultJob, paused := paused, todo := todo }.Inv where
  job_iff := hinv.job_iff
  cared i hwait := (hinv.cared i hwait).imp_right (.imp_right fun hsend => by
    rw [length_eq_zero_iff.mp hunlocked] at hsend
    cases hsend)
  upToDate := hfree
  offers i switchToJob job hmem := absurd hmem (htodo i switchToJob job)

/-- Every instance that is not reserved is going to get the default job, whatever it is. -/
lemma Pool.Inv.kickDefault (hinv : p.Inv) (hunlocked : p.unlocked) (defaultJob : J)
    (paused : Bool) :
    (Pool.kickDefault { p with defaultJob := defaultJob, paused := paused }).Inv := by
  refine hinv.of_unlocked hunlocked (by simp) fun i hfree => ?_
  have hselect : i ∈ p.select false := by simpa [Pool.select] using hfree
  exact .inr (mem_map_of_mem hselect)

lemma Pool.Inv.reserveForRun (hinv : p.Inv) (hunlocked : p.unlocked) (count : ℕ) :
    (p.reserveForRun count).Inv := by
  refine hinv.of_unlocked hunlocked (by simp [-map_take]) fun i hfree => ?_
  refine (hinv.upToDate i hfree).imp_right fun hmem => ?_
  rw [length_eq_zero_iff.mp hunlocked] at hmem
  cases hmem

/-- If an offer is the next step of the operation, its instance is not between reading that it
should wait and waiting. -/
def Pool.offerInTime (p : Pool J n) : Bool :=
  match p.todo with
  | .send i _ _ :: _ => !(p.instances i).phase.aboutToWait
  | _ => true

/-- A step of an operation keeps the invariant, unless it is an offer that comes too early. -/
lemma Pool.Inv.work (hinv : p.Inv) (h : p.work = some p') (htime : p.offerInTime = true) :
    p'.Inv := by
  unfold Pool.work at h
  split at h
  · cases h
  · -- an instance becomes reserved
    rename_i i todo htodo
    cases h
    exact hinv.set (by simp) (fun _ => .inl rfl) (fun hfalse => by cases hfalse)
      (fun t => mem_behind htodo) (hinv.offers_behind htodo)
  · -- an instance is released and the offer is the next step
    rename_i i todo htodo
    cases h
    refine hinv.set (by simp) (fun _ => .inr (.inr mem_cons_self)) (fun _ => .inl rfl) ?_ ?_
    · intro t hmem hne
      exact mem_cons_of_mem _ (mem_behind htodo hmem hne)
    · intro k switchToJob job hmem
      rcases mem_cons.mp hmem with heq | hrest
      · cases heq
        rfl
      · exact hinv.offers_behind htodo k switchToJob job hrest
  · -- the offer
    rename_i i switchToJob job todo htodo
    have hoffers := hinv.offers_behind htodo
    have hfreeMem : ∀ k, Todo.free k ∈ p.todo → Todo.free k ∈ todo := by
      intro k hmem
      rw [htodo] at hmem
      simpa using hmem
    split at h
    · -- it reaches the instance
      cases h
      refine hinv.set (hinv.job_iff i) (fun hwait => by cases hwait) (fun hreserved => ?_)
        (fun t => mem_behind htodo) hoffers
      exact (hinv.upToDate i hreserved).imp_right (hfreeMem i)
    · -- nobody listens
      rename_i hlistens
      cases h
      refine { job_iff := hinv.job_iff, cared := ?_, upToDate := ?_, offers := hoffers }
      · intro k hwait
        rcases hinv.cared k hwait with hchan | hcancelled | hmem
        · exact .inl hchan
        · exact .inr (.inl hcancelled)
        · rw [htodo] at hmem
          rcases mem_cons.mp hmem with heq | hrest
          · -- the dropped offer was for this instance: it was waiting, unless it was cancelled
            injection heq with hi hswitch _
            subst hi
            have hphase : (p.instances k).phase.isWaiting = true := by
              rcases ((p.instances k).phase.willWait_iff).mp hwait with habout | hwaiting
              · rw [Pool.offerInTime, htodo] at htime
                simp [habout] at htime
              · exact hwaiting
            refine .inr (.inl ?_)
            by_contra hcancelled
            apply hlistens
            rw [Pool.listens, hphase, Bool.eq_false_iff.mpr hcancelled, hswitch]
            simp
          · exact .inr (.inr hrest)
      · intro k hreserved
        exact (hinv.upToDate k hreserved).imp_right (hfreeMem k)

end Work

/-! ## Runs -/

lemma Pool.Inv.togglePause (hinv : p.Inv) (hunlocked : p.unlocked) (paused : Bool) :
    (p.togglePause paused).Inv := by
  unfold Pool.togglePause
  split
  · exact hinv.kickDefault hunlocked p.defaultJob true
  · exact { hinv with }

lemma Pool.Inv.stop (hinv : p.Inv) :
    { p with stopped := true, instances := fun i =>
      { p.instances i with cancelled := true } : Pool J n }.Inv where
  job_iff := hinv.job_iff
  cared _ _ := .inr (.inl rfl)
  upToDate := hinv.upToDate
  offers := hinv.offers

/-- The step is not an offer that comes too early. -/
def Step.inTime (p : Pool J n) : Step J n → Bool
  | .work => p.offerInTime
  | _ => true

/-- Every step in time keeps the invariant. -/
lemma Pool.Inv.step (hinv : p.Inv) {s : Step J n} (h : p.step s = some p')
    (htime : s.inTime p = true) : p'.Inv := by
  cases s with
  | setDefault defaultJob =>
    rw [Pool.step] at h
    split at h
    · cases h
      exact hinv.kickDefault ‹_› defaultJob p.paused
    · cases h
  | togglePause paused =>
    rw [Pool.step] at h
    split at h
    · cases h
      exact hinv.togglePause ‹_› paused
    · cases h
  | reserveForRun count =>
    rw [Pool.step] at h
    split at h
    · rename_i hmay
      cases h
      exact hinv.reserveForRun hmay.1 count
    · cases h
  | work => exact hinv.work h htime
  | inst i s =>
    rw [Pool.step] at h
    split at h
    · obtain ⟨inst', hinst, rfl⟩ := Option.map_eq_some_iff.mp h
      exact hinv.instStep hinst
    · cases h
  | stop =>
    cases h
    exact hinv.stop

/-- Every offer of the run is in time. -/
def Pool.runInTime : Pool J n → List (Step J n) → Bool
  | _, [] => true
  | p, s :: steps =>
    s.inTime p &&
      match p.step s with
      | some p' => p'.runInTime steps
      | none => true

lemma Pool.Inv.run (hinv : p.Inv) {steps : List (Step J n)} (h : p.run steps = some p')
    (htime : p.runInTime steps = true) : p'.Inv := by
  induction steps generalizing p with
  | nil =>
    cases h
    exact hinv
  | cons s steps ih =>
    obtain ⟨p₁, hstep, hrun⟩ := Option.bind_eq_some_iff.mp h
    rw [Pool.runInTime, hstep, Bool.and_eq_true] at htime
    exact ih (hinv.step hstep htime.1) hrun htime.2

/-- The instance waits although nobody is going to give it a job. -/
def Pool.Stranded (p : Pool J n) (i : Fin n) : Prop :=
  (p.instances i).phase.isWaiting = true ∧ (p.instances i).jobChan = false ∧
    (p.instances i).cancelled = false ∧
    .send i (p.instances i).switchToJob p.defaultJob ∉ p.todo

/-- If every offer of a run is in time, no instance is ever stranded: one that waits is reserved,
was cancelled, or is just about to get the default job. One that is not reserved has the current
default job as its next one, or will be given it by the operation in progress. -/
theorem pool_never_stranded {defaultJob : J} {steps : List (Step J n)}
    (h : (newPool n defaultJob).run steps = some p)
    (htime : (newPool n defaultJob).runInTime steps = true) (i : Fin n) :
    ¬ p.Stranded i ∧ ((p.instances i).jobChan = false →
      (p.instances i).job = some p.defaultJob ∨ .free i ∈ p.todo) := by
  have hinv := (inv_newPool n defaultJob).run h htime
  refine ⟨?_, hinv.upToDate i⟩
  intro hstranded
  obtain ⟨hwaiting, hchan, hcancelled, hsend⟩ := hstranded
  have hwait := ((p.instances i).phase.willWait_iff).mpr (.inr hwaiting)
  rcases hinv.cared i hwait with hreserved | hcancelled' | hmem
  · rw [hchan] at hreserved
    cases hreserved
  · rw [hcancelled] at hcancelled'
    cases hcancelled'
  · exact hsend hmem

/-- The only instance is reserved, waits, and is released. -/
theorem pool_never_stranded_released :
    ∃ p, (newPool 1 7).run [.reserveForRun 1, .work, .inst 0 .waitUnpaused, .inst 0 .boot,
      .inst 0 .read, .inst 0 .act, .reserveForRun 0, .work, .work] = some p ∧
      (p.instances 0).phase = .running 7 ∧ ¬ p.Stranded 0 := by
  obtain ⟨p, hp⟩ : ∃ p, (newPool 1 7).run [.reserveForRun 1, .work, .inst 0 .waitUnpaused,
      .inst 0 .boot, .inst 0 .read, .inst 0 .act, .reserveForRun 0, .work, .work] = some p :=
    ⟨_, rfl⟩
  refine ⟨p, hp, ?_, (pool_never_stranded hp (by decide) 0).1⟩
  cases hp
  rfl

/-- The only instance reads that it is reserved, is released, and then starts to wait: it is not
reserved, it has the default job, and nothing is left to be done for it. -/
theorem pool_strands_released :
    ((newPool 1 7).run [.reserveForRun 1, .work, .inst 0 .waitUnpaused, .inst 0 .boot,
      .inst 0 .read, .reserveForRun 0, .work, .work, .inst 0 .act]).map (fun p => (p.instances 0, p.todo)) =
      some (⟨some 7, false, 1, false, .waiting true⟩, []) := by
  decide

end KConfuzz.Dispatcher
