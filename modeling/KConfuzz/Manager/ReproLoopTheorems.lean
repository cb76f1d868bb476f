import KConfuzz.Manager.ReproLoop

/-!
# Slots, titles and wakeups

A token is in the channel, with the loop, or with a goroutine that has not released it, so no more
reproductions run than there were tokens. A crash that the loop has taken from the queue has a
title that is not being reproduced. When the loop waits and no ping is there, the last look at the
queue found only titles that were being reproduced; since then nothing was queued, and a goroutine
that has ended has not pinged yet.
-/

namespace KConfuzz.ReproLoop

open List

variable {r r' : Loop} {n : ℕ} {title : String} {crash : Crash}

/-! ## Slots -/

lemma le_calculateReproVMs (reproVMs repros : ℕ) : repros ≤ calculateReproVMs reproVMs repros := by
  unfold calculateReproVMs
  split <;> omega

lemma countLoop_spec {reproVMs room count : ℕ} (hroom : reproVMs ≤ count + room)
    (h : calculateReproVMs reproVMs count ≤ reproVMs) :
    calculateReproVMs reproVMs (countLoop reproVMs room count) ≤ reproVMs ∧
    reproVMs < calculateReproVMs reproVMs (countLoop reproVMs room count + 1) := by
  induction room generalizing count with
  | zero =>
    have hle := le_calculateReproVMs reproVMs (count + 1)
    exact ⟨h, by rw [countLoop]; omega⟩
  | succ room ih =>
    rw [countLoop]
    split
    · rename_i hmore
      exact ih (by omega) hmore
    · exact ⟨h, by omega⟩

/-- The number of slots is the largest for which there are enough instances. -/
lemma slots_spec (reproVMs : ℕ) : calculateReproVMs reproVMs (slots reproVMs) ≤ reproVMs ∧
    reproVMs < calculateReproVMs reproVMs (slots reproVMs + 1) := by
  apply countLoop_spec (by omega)
  show (if reproVMs = 1 ∧ 0 = 1 then 1 else (0 * 4 + 2) / 3) ≤ reproVMs
  rw [if_neg (by omega)]
  exact Nat.zero_le _

/-! ## Taking a crash -/

/-- Nothing is found only if every title is being reproduced. -/
lemma popLoop_cases (r : Loop) (found : Option (ℕ × Crash)) (i : ℕ) (queue : List Crash) :
    (r.popLoop found i queue = found ∧
      (found = none → ∀ crash ∈ queue, crash.fullTitle ∈ r.reproducing)) ∨
    ∃ j crash, r.popLoop found i queue = some (j, crash) ∧ crash.fullTitle ∉ r.reproducing := by
  induction queue generalizing found i with
  | nil => exact .inl ⟨rfl, fun _ crash h => by cases h⟩
  | cons crash queue ih =>
    rw [Loop.popLoop]
    split
    · rename_i hrepro
      refine (ih found (i + 1)).imp_left fun ⟨heq, hall⟩ => ⟨heq, fun hnone => ?_⟩
      exact forall_mem_cons.mpr ⟨hrepro, hall hnone⟩
    · rename_i hrepro
      split
      · rcases ih (some (i, crash)) (i + 1) with ⟨heq, _⟩ | hfound
        · exact .inr ⟨i, crash, heq, hrepro⟩
        · exact .inr hfound
      · rename_i hbetter
        refine (ih found (i + 1)).imp_left fun ⟨heq, _⟩ => ⟨heq, fun hnone => ?_⟩
        rw [hnone] at hbetter
        exact absurd rfl hbetter

lemma popCrash_cases (r : Loop) :
    (r.popCrash = (none, r) ∧ ∀ crash ∈ r.queue, crash.fullTitle ∈ r.reproducing) ∨
    ∃ i crash, r.popCrash = (some crash, { r with queue := r.queue.eraseIdx i }) ∧
      crash.fullTitle ∉ r.reproducing := by
  unfold Loop.popCrash
  rcases popLoop_cases r none 0 r.queue with ⟨heq, hall⟩ | ⟨j, crash, heq, hnot⟩
  · rw [heq]
    exact .inl ⟨rfl, hall rfl⟩
  · rw [heq]
    exact .inr ⟨_, crash, rfl, hnot⟩

/-! ## The invariant -/

structure Inv (n : ℕ) (r : Loop) : Prop where
  reproducing : ∀ t, t ∈ r.reproducing ↔ t ∈ r.handling
  nodup : r.handling.Nodup
  slots : r.parallel + r.handling.length + r.ended.length + (if r.pc.isStart then 1 else 0) = n
  /-- The crash that has been taken can be started. -/
  taken : ∀ crash ∈ r.pc.crash?, crash.fullTitle ∉ r.handling
  /-- A crash in the queue has to wait, or there will be a ping. -/
  awake : r.pc = .waitPing → r.pingQueue = false → ∀ crash ∈ r.queue,
    crash.fullTitle ∈ r.handling ∨ crash.fullTitle ∈ r.ended ∨ crash.fullTitle ∈ r.released

lemma inv_newReproLoop (reproVMs : ℕ) (onlyOnce : Bool) :
    Inv (slots reproVMs) (newReproLoop reproVMs onlyOnce) where
  reproducing _ := Iff.rfl
  nodup := nodup_nil
  slots := rfl
  taken _ h := by cases h
  awake h := by cases h

namespace Inv

lemma enqueue (hinv : Inv n r) (crash : Crash) : Inv n (r.enqueue crash) := by
  unfold Loop.enqueue
  dsimp only
  split
  · exact hinv
  · exact { hinv with awake := fun _ h => by cases h }

/-- A reproduction starts. -/
lemma begin (hinv : Inv n r) (hpc : r.pc = .start crash) : Inv n (r.begin crash) where
  reproducing t := by
    show t ∈ r.reproducing.insert crash.fullTitle ↔ t ∈ crash.fullTitle :: r.handling
    rw [mem_insert_iff, mem_cons, hinv.reproducing]
  nodup := by
    apply nodup_cons.mpr ⟨hinv.taken crash _, hinv.nodup⟩
    rw [hpc]
    rfl
  slots := by
    have h := hinv.slots
    rw [hpc] at h
    show r.parallel + (r.handling.length + 1) + r.ended.length + 0 = n
    rw [← h]
    simp only [Pc.isStart, if_true]
    omega
  taken _ h := by cases h
  awake h := by cases h

/-- A goroutine that ends keeps its token until it releases it, and is still to ping. -/
lemma finish (hinv : Inv n r) (htitle : title ∈ r.handling) : Inv n (r.finish title) where
  reproducing t := by
    show t ∈ r.reproducing.filter (· ≠ title) ↔ t ∈ r.handling.erase title
    rw [mem_filter, hinv.nodup.mem_erase_iff, hinv.reproducing, and_comm, decide_eq_true_eq]
  nodup := hinv.nodup.erase title
  slots := by
    have h := hinv.slots
    have hlen := length_erase_of_mem htitle
    have hpos := length_pos_of_mem htitle
    show r.parallel + (r.handling.erase title).length + (r.ended.length + 1) +
      (if r.pc.isStart then 1 else 0) = n
    omega
  taken crash hcrash := fun h => hinv.taken crash hcrash (mem_of_mem_erase h)
  awake hpc hping crash hcrash := by
    show crash.fullTitle ∈ r.handling.erase title ∨ crash.fullTitle ∈ title :: r.ended ∨ _
    rw [hinv.nodup.mem_erase_iff, mem_cons]
    by_cases heq : crash.fullTitle = title
    · exact .inr (.inl (.inl heq))
    · rcases hinv.awake hpc hping crash hcrash with h | h | h
      · exact .inl ⟨heq, h⟩
      · exact .inr (.inl (.inr h))
      · exact .inr (.inr h)

/-- A goroutine that has ended gives its token back. -/
lemma release (hinv : Inv n r) (htitle : title ∈ r.ended) :
    Inv n { r with
      ended := r.ended.erase title
      released := title :: r.released
      parallel := r.parallel + 1 } where
  reproducing := hinv.reproducing
  nodup := hinv.nodup
  slots := by
    have h := hinv.slots
    have hlen := length_erase_of_mem htitle
    have hpos := length_pos_of_mem htitle
    show r.parallel + 1 + r.handling.length + (r.ended.erase title).length +
      (if r.pc.isStart then 1 else 0) = n
    omega
  taken := hinv.taken
  awake hpc hping crash hcrash := by
    show _ ∨ crash.fullTitle ∈ r.ended.erase title ∨ crash.fullTitle ∈ title :: r.released
    rw [mem_cons]
    by_cases heq : crash.fullTitle = title
    · exact .inr (.inr (.inl heq))
    · rcases hinv.awake hpc hping crash hcrash with h | h | h
      · exact .inl h
      · exact .inr (.inl ((mem_erase_of_ne heq).mpr h))
      · exact .inr (.inr (.inr h))

section

variable {queue : List Crash} {pingQueue : Bool} {poolSize : Option ℕ} {pc : Pc} (hinv : Inv n r)
  (hstart : r.pc.isStart = false)

include hinv hstart

/-- The loop goes on without touching the goroutines or the slots. -/
lemma move (hstart' : pc.isStart = false)
    (htaken : ∀ crash ∈ pc.crash?, crash.fullTitle ∉ r.handling)
    (hawake : pc = .waitPing → ∀ crash ∈ queue, crash.fullTitle ∈ r.handling) :
    Inv n { r with queue, pingQueue, poolSize, pc } where
  reproducing := hinv.reproducing
  nodup := hinv.nodup
  slots := by
    rw [← hinv.slots, hstart, hstart']
  taken := htaken
  awake hpc _ crash hcrash := .inl (hawake hpc crash hcrash)

/-- It goes to a place where it has taken no crash and does not wait. -/
lemma idle (hpc : pc = .pop ∨ pc = .aborted ∨ pc = .terminated) :
    Inv n { r with queue, pingQueue, poolSize, pc } := by
  rcases hpc with rfl | rfl | rfl
  all_goals exact hinv.move hstart rfl (fun _ hcrash => by cases hcrash) nofun

/-- It goes on with a crash that can be started. -/
lemma hold (hnot : crash.fullTitle ∉ r.handling) (hpc : pc = .check crash ∨ pc = .waitSlot crash) :
    Inv n { r with queue, pingQueue, poolSize, pc } := by
  have htaken : ∀ crash' ∈ some crash, crash'.fullTitle ∉ r.handling := by
    intro crash' hcrash'
    cases hcrash'
    exact hnot
  rcases hpc with rfl | rfl
  all_goals exact hinv.move hstart rfl htaken nofun

end

section Steps

variable (hinv : Inv n r)

include hinv

/-- A crash that was found can be started; if none was, all of the queue have to wait. -/
lemma popCrash (h : step r .popCrash = some r') : Inv n r' := by
  rw [ReproLoop.step] at h
  split at h
  · rename_i hpc
    have hstart : r.pc.isStart = false := by rw [hpc]; rfl
    rcases popCrash_cases r with ⟨heq, hall⟩ | ⟨i, crash, heq, hnot⟩
    · rw [heq] at h
      cases h
      apply hinv.move hstart rfl fun _ hcrash => by cases hcrash
      exact fun _ crash hcrash => (hinv.reproducing _).mp (hall crash hcrash)
    · rw [heq] at h
      cases h
      exact hinv.hold hstart (fun hmem => hnot ((hinv.reproducing _).mpr hmem)) (.inl rfl)
  · cases h

lemma needRepro {answer : Bool} (h : step r (.needRepro answer) = some r') : Inv n r' := by
  rw [ReproLoop.step] at h
  split at h
  · rename_i crash hpc
    have hstart : r.pc.isStart = false := by rw [hpc]; rfl
    cases h
    cases answer with
    | true => exact hinv.hold hstart (hinv.taken crash (by rw [hpc]; rfl)) (.inr rfl)
    | false => exact hinv.idle hstart (.inr (.inl rfl))
  · cases h

/-- The token that is taken is the one of the crash that is about to start. -/
lemma takeSlot (h : step r .takeSlot = some r') : Inv n r' := by
  rw [ReproLoop.step] at h
  split at h
  · rename_i crash hpc
    have htaken : crash.fullTitle ∉ r.handling := hinv.taken crash (by rw [hpc]; rfl)
    have hslots := hinv.slots
    rw [hpc] at hslots
    simp only [Pc.isStart, Bool.false_eq_true, if_false] at hslots
    split at h
    · cases h
      exact
        { hinv with
          slots := by
            show r.parallel - 1 + r.handling.length + r.ended.length + 1 = n
            omega
          taken := fun crash' hcrash' => by
            cases hcrash'
            exact htaken
          awake := fun hwait => by cases hwait }
    · cases h
  · cases h

lemma cancel (h : step r .cancel = some r') : Inv n r' := by
  rw [ReproLoop.step] at h
  split at h
  · rename_i hpc
    cases h
    exact hinv.idle (by rw [hpc]; rfl) (.inr (.inr rfl))
  · rename_i crash hpc
    cases h
    exact hinv.idle (by rw [hpc]; rfl) (.inr (.inr rfl))
  · cases h

/-- Every step keeps the invariant. -/
lemma step {s : Step} (h : step r s = some r') : Inv n r' := by
  cases s with
  | popCrash => exact hinv.popCrash h
  | needRepro answer => exact hinv.needRepro h
  | takeSlot => exact hinv.takeSlot h
  | cancel => exact hinv.cancel h
  | enqueue crash =>
    cases h
    exact hinv.enqueue crash
  | adjust =>
    rw [ReproLoop.step] at h
    split at h
    · rename_i hpc
      cases h
      exact hinv.idle (by rw [hpc]; rfl) (.inl rfl)
    · cases h
  | receivePing =>
    rw [ReproLoop.step] at h
    split at h
    · rename_i hpc
      split at h
      · cases h
        exact hinv.idle (by rw [hpc]; rfl) (.inl rfl)
      · cases h
    · cases h
  | begin =>
    rw [ReproLoop.step] at h
    split at h
    · rename_i crash hpc
      cases h
      exact hinv.begin hpc
    · cases h
  | finish title =>
    obtain ⟨htitle, heq⟩ := Option.ite_none_right_eq_some.mp h
    cases heq
    exact hinv.finish htitle
  | release title =>
    obtain ⟨htitle, heq⟩ := Option.ite_none_right_eq_some.mp h
    cases heq
    exact hinv.release htitle.1
  | sendPing title =>
    obtain ⟨-, heq⟩ := Option.ite_none_right_eq_some.mp h
    cases heq
    exact { hinv with awake := fun _ hping => by cases hping }

end Steps

lemma run (hinv : Inv n r) {steps : List Step} (h : run r steps = some r') : Inv n r' := by
  induction steps generalizing r with
  | nil =>
    cases h
    exact hinv
  | cons s steps ih =>
    rw [ReproLoop.run, Option.bind_eq_some_iff] at h
    obtain ⟨r₁, hstep, hrun⟩ := h
    exact ih (hinv.step hstep) hrun

end Inv

/-- In every state the scheduler can reach, the titles of the reproductions that run are distinct
and there are at most as many of them as the number of slots fixed at the start. When the loop
waits and there is no ping, each crash in the queue has a title that is being reproduced, or whose
goroutine has ended and is still to ping. -/
theorem reproLoop_schedules (reproVMs : ℕ) (onlyOnce : Bool) (steps : List Step) (r : Loop)
    (h : run (newReproLoop reproVMs onlyOnce) steps = some r) :
    r.handling.Nodup ∧
    calculateReproVMs reproVMs (slots reproVMs) ≤ reproVMs ∧
    r.handling.length ≤ slots reproVMs ∧
    (r.pc = .waitPing → r.pingQueue = false → ∀ crash ∈ r.queue,
      (crash.fullTitle ∈ r.handling ∧ crash.fullTitle ∈ r.reproducing) ∨
        crash.fullTitle ∈ r.ended ∨ crash.fullTitle ∈ r.released) := by
  have hinv := (inv_newReproLoop reproVMs onlyOnce).run h
  refine ⟨hinv.nodup, (slots_spec reproVMs).1, ?_, ?_⟩
  · have hslots := hinv.slots
    omega
  · intro hpc hping crash hcrash
    rcases hinv.awake hpc hping crash hcrash with hmem | hmem
    · exact .inl ⟨hmem, (hinv.reproducing _).mpr hmem⟩
    · exact .inr hmem

/-- A crash with the given title. -/
def reported (title : String) (h : title ≠ "") : Crash :=
  ⟨false, false, false, false, title, "", .inl h⟩

/-- Two crashes with one title; the second is queued while the first is being reproduced. -/
def sameTitle : List Step :=
  [.enqueue (reported "KASAN" (by decide)), .popCrash, .needRepro true, .takeSlot, .begin,
    .popCrash, .receivePing, .popCrash, .enqueue (reported "KASAN" (by decide)), .receivePing,
    .popCrash]

theorem reproLoop_schedules_sameTitle :
    ∃ r, run (newReproLoop 2 false) sameTitle = some r ∧ r.queue.length = 1 ∧
      ∀ crash ∈ r.queue, (crash.fullTitle ∈ r.handling ∧ crash.fullTitle ∈ r.reproducing) ∨
        crash.fullTitle ∈ r.ended ∨ crash.fullTitle ∈ r.released :=
  ⟨_, rfl, rfl, (reproLoop_schedules 2 false sameTitle _ rfl).2.2.2 rfl rfl⟩

/-- When the reproduction ends, the loop waits without a ping although the queued crash has a title
that is not being reproduced any more: the goroutine pings later. -/
theorem waits_before_ping :
    ∃ r, run (newReproLoop 2 false) (sameTitle ++ [.finish "KASAN"]) = some r ∧
      r.pc = .waitPing ∧ r.pingQueue = false ∧ r.reproducing = [] ∧ r.handling = [] ∧
      r.queue.map Crash.fullTitle = ["KASAN"] :=
  ⟨_, rfl, rfl, rfl, rfl, rfl, rfl⟩

end KConfuzz.ReproLoop
