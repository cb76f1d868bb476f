import KConfuzz.Executor.Config
import KConfuzz.Lib.UndoLog
import Mathlib.Data.List.Nodup
import Mathlib.Data.List.Range
import Mathlib.Data.List.Perm.Subperm

/-!
# What config actions leave behind

The saved originals form an undo log over the proc files (`Lib.UndoLog`): an action logs a
file before its first write to it, so undoing the log gives the initial files back, also
when several registry entries share a path. `SavedInv` is what every action keeps, whatever
the outcomes of its accesses.
-/

namespace KConfuzz.Executor

open List
open Lib.UndoLog (Tracks undo keys)

variable {configs : List RuntimeConfigEntry} {s : ConfigState} {a : ConfigAction} {env : ApplyEnv}

/-! ## What one action does -/

/-- The arguments of an action reach `write_file`: the parameter exists, and the value does
too, or the action flips a parameter that has values. -/
def ConfigAction.Writes (configs : List RuntimeConfigEntry) (a : ConfigAction) : Prop :=
  ∃ entry, configs[a.paramId.toNat]? = some entry ∧
    if a.flip then 0 < entry.values.length else a.valueId.toNat < entry.values.length

variable {entry : RuntimeConfigEntry}

lemma flipValueId_lt (h : 0 < entry.values.length) (content : List UInt8) (valueId : ℕ)
    (access : Access) :
    flipValueId entry content valueId access < entry.values.length := by
  have hfallback : (if entry.values.length ≤ valueId then 0 else valueId) < entry.values.length := by
    split <;> omega
  unfold flipValueId
  generalize (if entry.values.length ≤ valueId then 0 else valueId) = fallback at hfallback ⊢
  split
  · split
    · exact Nat.mod_lt _ h
    · exact hfallback
  · exact hfallback

/-- The value an action selects is in range exactly if its arguments reach `write_file`. -/
lemma selectedValueId_lt_iff (hentry : configs[a.paramId.toNat]? = some entry) (access : Access) :
    selectedValueId s a entry access < entry.values.length ↔ a.Writes configs := by
  have hW : a.Writes configs ↔
      if a.flip then 0 < entry.values.length else a.valueId.toNat < entry.values.length := by
    simp [ConfigAction.Writes, hentry]
  rw [hW]
  unfold selectedValueId
  cases a.flip
  · exact Iff.rfl
  · simp only [if_true]
    exact ⟨fun h => by omega, fun h => flipValueId_lt h _ _ _⟩

@[simp] lemma savePhase_files (entry : RuntimeConfigEntry) (access : Access) :
    (savePhase configs s a entry access).files = s.files := by
  unfold savePhase saveOriginal
  split
  · dsimp only
    split
    · split <;> rfl
    · rfl
  · rfl

/-- What an action can do: nothing, only save, or save and write a registry value. -/
lemma apply_cases (configs : List RuntimeConfigEntry) (s : ConfigState) (a : ConfigAction)
    (env : ApplyEnv) :
    (kconfuzzApplyConfigAction configs s a env = (s, none) ∧ ¬ a.Writes configs) ∨
    (∃ entry, configs[a.paramId.toNat]? = some entry ∧ ¬ a.Writes configs ∧
      kconfuzzApplyConfigAction configs s a env =
        (savePhase configs s a entry env.saveRead, none)) ∨
    (∃ entry value, configs[a.paramId.toNat]? = some entry ∧ a.Writes configs ∧
      kconfuzzApplyConfigAction configs s a env =
        ({ savePhase configs s a entry env.saveRead with
            files := (writeFile s.files entry.procPath value env.write).1 },
          some { paramId := a.paramId.toNat, file := entry.procPath, value := value,
                 ok := (writeFile s.files entry.procPath value env.write).2 })) := by
  unfold kconfuzzApplyConfigAction
  cases hentry : configs[a.paramId.toNat]? with
  | none =>
    left
    exact ⟨rfl, by simp [ConfigAction.Writes, hentry]⟩
  | some entry =>
    dsimp only
    split
    · -- `bad_value` before anything is read
      rename_i hbad
      left
      refine ⟨rfl, ?_⟩
      simp only [Bool.and_eq_true, Bool.not_eq_true', decide_eq_true_eq] at hbad
      simp [ConfigAction.Writes, hentry, hbad.1, hbad.2]
    · right
      have hlt := selectedValueId_lt_iff (s := savePhase configs s a entry env.saveRead) hentry
        env.flipRead
      split
      · rename_i hnone
        left
        rw [getElem?_eq_none_iff] at hnone
        exact ⟨entry, rfl, by rw [← hlt]; omega, rfl⟩
      · rename_i value hsome
        right
        obtain ⟨hsel, -⟩ := List.getElem?_eq_some_iff.mp hsome
        refine ⟨entry, value, rfl, hlt.mp hsel, ?_⟩
        rw [savePhase_files]

/-- Whether `write_file` is called depends on the arguments only. -/
lemma apply_snd_isSome_iff :
    (kconfuzzApplyConfigAction configs s a env).2.isSome ↔ a.Writes configs := by
  rcases apply_cases configs s a env with ⟨h, hw⟩ | ⟨entry, -, hw, h⟩ | ⟨entry, value, -, hw, h⟩ <;>
    simp [h, hw]

/-! ## The saved parameters -/

/-- Every parameter is saved once, and `saved_valid` marks the saved ones. -/
structure SavedInv (configs : List RuntimeConfigEntry) (s : ConfigState) : Prop where
  nodup : s.savedOrder.Nodup
  lt_count : ∀ p ∈ s.savedOrder, p < configs.length
  valid_iff : ∀ p, s.savedValid p = true ↔ p ∈ s.savedOrder
  short : ∀ p ∈ s.savedOrder, (s.savedValues p).length < 512

lemma ConfigState.Clean.savedInv (h : s.Clean) : SavedInv configs s where
  nodup := by simp [h.savedOrder]
  lt_count := by simp [h.savedOrder]
  valid_iff := by simp [h.savedOrder, h.savedValid]
  short := by simp [h.savedOrder]

variable {p : ℕ}

lemma SavedInv.savedCount_lt (h : SavedInv configs s) (hp : p < configs.length)
    (hnew : p ∉ s.savedOrder) : s.savedCount < configs.length := by
  have hnodup : (p :: s.savedOrder).Nodup := nodup_cons.mpr ⟨hnew, h.nodup⟩
  have hsub : p :: s.savedOrder ⊆ List.range configs.length := by
    intro q hq
    rw [mem_range]
    rcases mem_cons.mp hq with rfl | hq
    · exact hp
    · exact h.lt_count q hq
  have hle := (hnodup.subperm hsub).length_le
  rw [length_cons, length_range] at hle
  exact hle

lemma length_kconfuzzTrim_le (str : List UInt8) : (kconfuzzTrim str).length ≤ str.length := by
  calc (kconfuzzTrim str).length
      ≤ ((cstr str).rdropWhile kconfuzzIsSpace).length := (dropWhile_sublist _).length_le
    _ ≤ (cstr str).length := ( rdropWhile_prefix _ _).length_le
    _ ≤ str.length := ( takeWhile_prefix _).length_le

lemma length_readback_lt (content : List UInt8) :
    (kconfuzzReadback content 512 .ok).2.length < 512 := by
  have h : (kconfuzzReadback content 512 .ok).2.length ≤ (content.take (512 - 1)).length :=
    length_kconfuzzTrim_le _
  rw [length_take] at h
  omega

section

variable (hinv : SavedInv configs s)

include hinv

/-- The original is saved already, cannot be read, or is saved now. -/
lemma savePhase_cases (hentry : configs[a.paramId.toNat]? = some entry) (access : Access) :
    (savePhase configs s a entry access = s ∧
      (a.noRestore = true ∨ s.savedValid a.paramId.toNat = true)) ∨
    (a.paramId.toNat ∉ s.savedOrder ∧ (∃ errno, access = .error errno) ∧
      ∃ out, savePhase configs s a entry access =
        { s with savedValues := Function.update s.savedValues a.paramId.toNat out }) ∨
    (a.paramId.toNat ∉ s.savedOrder ∧ access = .ok ∧
      savePhase configs s a entry access =
        { s with
          savedValues := Function.update s.savedValues a.paramId.toNat
            (kconfuzzReadback (s.files entry.procPath) 512 .ok).2
          savedValid := Function.update s.savedValid a.paramId.toNat true
          savedOrder := a.paramId.toNat :: s.savedOrder }) := by
  unfold savePhase
  cases hr : a.noRestore
  · cases hv : s.savedValid a.paramId.toNat
    · right
      have hnew : a.paramId.toNat ∉ s.savedOrder := by
        rw [← hinv.valid_iff, hv]
        exact Bool.false_ne_true
      cases access with
      | error errno =>
        left
        exact ⟨hnew, ⟨errno, rfl⟩, readErrorText errno, rfl⟩
      | ok =>
        right
        have hp : a.paramId.toNat < configs.length := (List.getElem?_eq_some_iff.mp hentry).1
        have hroom := hinv.savedCount_lt hp hnew
        refine ⟨hnew, rfl, ?_⟩
        simp only [saveOriginal, kconfuzzReadback, ConfigState.savedCount] at hroom ⊢
        simp [hroom]
    · left
      exact ⟨rfl, Or.inr rfl⟩
  · left
    exact ⟨rfl, Or.inl rfl⟩

/-- Saving keeps the stack of saved parameters without duplicates. -/
lemma SavedInv.savePhase (hentry : configs[a.paramId.toNat]? = some entry) (access : Access) :
    SavedInv configs (savePhase configs s a entry access) := by
  rcases savePhase_cases hinv hentry access with
    ⟨heq, -⟩ | ⟨hnew, -, out, heq⟩ | ⟨hnew, -, heq⟩ <;> rw [heq]
  · exact hinv
  · refine ⟨hinv.nodup, hinv.lt_count, hinv.valid_iff, ?_⟩
    intro p hp
    have hne : p ≠ a.paramId.toNat := fun h => hnew (h ▸ hp)
    simpa [Function.update_of_ne hne] using hinv.short p hp
  · refine ⟨nodup_cons.mpr ⟨hnew, hinv.nodup⟩, ?_, ?_, ?_⟩
    · intro p hp
      rcases mem_cons.mp hp with rfl | hp
      · exact (List.getElem?_eq_some_iff.mp hentry).1
      · exact hinv.lt_count p hp
    · intro p
      by_cases hp : p = a.paramId.toNat
      · simp [hp]
      · simp [hp, hinv.valid_iff]
    · intro p hp
      by_cases hpa : p = a.paramId.toNat
      · rw [hpa]
        simpa using length_readback_lt _
      · have hp' : p ∈ s.savedOrder := (mem_cons.mp hp).resolve_left hpa
        simpa [Function.update_of_ne hpa] using hinv.short p hp'

lemma SavedInv.configStep (e : ConfigEvent) : SavedInv configs (configStep configs s e) ∧
    s.savedOrder ⊆ (configStep configs s e).savedOrder := by
  have hsave : ∀ entry, configs[e.1.paramId.toNat]? = some entry →
      s.savedOrder ⊆ (Executor.savePhase configs s e.1 entry e.2.saveRead).savedOrder := by
    intro entry hentry
    rcases savePhase_cases hinv hentry e.2.saveRead with
      ⟨heq, -⟩ | ⟨-, -, out, heq⟩ | ⟨-, -, heq⟩ <;> simp [heq]
  unfold Executor.configStep
  rcases apply_cases configs s e.1 e.2 with
    ⟨heq, -⟩ | ⟨entry, hentry, -, heq⟩ | ⟨entry, value, hentry, -, heq⟩ <;> rw [heq]
  · exact ⟨hinv, List.Subset.refl _⟩
  · exact ⟨hinv.savePhase hentry _, hsave entry hentry⟩
  · obtain ⟨h1, h2, h3, h4⟩ := hinv.savePhase hentry e.2.saveRead
    exact ⟨⟨h1, h2, h3, h4⟩, hsave entry hentry⟩

lemma SavedInv.run (evs : List ConfigEvent) :
    SavedInv configs (evs.foldl (Executor.configStep configs) s) :=
  foldlRecOn evs _ hinv fun _ h e _ => (h.configStep e).1

lemma mem_savedOrder_run (hp : p ∈ s.savedOrder) (evs : List ConfigEvent) :
    p ∈ (evs.foldl (configStep configs) s).savedOrder := by
  induction evs generalizing s with
  | nil => exact hp
  | cons e evs ih =>
    obtain ⟨hinv', hsub⟩ := hinv.configStep e
    exact ih hinv' (hsub hp)

end

/-! ## Restoring -/

/-- Every saved parameter is written back once, the last one first. -/
lemma restoreLoop_attempts (writes : ℕ → Access) (order : List ℕ) (s : ConfigState)
    (hnodup : order.Nodup) (hlt : ∀ p ∈ order, p < configs.length)
    (hvalid : ∀ p ∈ order, s.savedValid p = true) :
    (restoreLoop configs writes order s).2.map (fun w => (w.paramId, w.file)) =
      order.filterMap fun p => configs[p]?.map fun entry => (p, entry.procPath) := by
  induction order generalizing s with
  | nil => rfl
  | cons p order ih =>
    obtain ⟨hp, hnodup⟩ := nodup_cons.mp hnodup
    obtain ⟨entry, hentry⟩ : ∃ entry, configs[p]? = some entry :=
      ⟨_, getElem?_eq_getElem (hlt p mem_cons_self)⟩
    simp only [restoreLoop, hvalid p mem_cons_self, hentry, map_cons, Option.map_some,
      filterMap_cons]
    congr 1
    apply ih _ hnodup (fun q hq => hlt q (mem_cons_of_mem p hq))
    intro q hq
    have hne : q ≠ p := fun h => hp (h ▸ hq)
    simp [Function.update_of_ne hne, hvalid q (mem_cons_of_mem p hq)]

/-- The restore attempts to undo every saved parameter, whatever its writes return. -/
lemma SavedInv.restore_attempts (hinv : SavedInv configs s) (writes : ℕ → Access)
    (hp : p ∈ s.savedOrder) (hentry : configs[p]? = some entry) :
    ∃ w ∈ (kconfuzzRestoreConfigActions configs writes s).2,
      w.paramId = p ∧ w.file = entry.procPath := by
  have hmap := restoreLoop_attempts writes s.savedOrder s hinv.nodup hinv.lt_count
    fun q hq => (hinv.valid_iff q).mpr hq
  have hmem : (p, entry.procPath) ∈
      (kconfuzzRestoreConfigActions configs writes s).2.map fun w => (w.paramId, w.file) := by
    rw [kconfuzzRestoreConfigActions, hmap, mem_filterMap]
    exact ⟨p, hp, by rw [hentry]; rfl⟩
  obtain ⟨w, hw, heq⟩ := mem_map.mp hmem
  injection heq with hid hfile
  exact ⟨w, hw, hid, hfile⟩

/-! ## Save before write -/

/-- Along a run from `s`, an action without `NO_RESTORE` calls `write_file` only for a parameter
that is saved by then, and the restore after the run attempts to write that file back. -/
def SaveBeforeWrite (configs : List RuntimeConfigEntry) (s : ConfigState)
    (evs : List ConfigEvent) : Prop :=
  ∀ pre e post, evs = pre ++ e :: post → e.1.noRestore = false →
    ∀ w, (kconfuzzApplyConfigAction configs (pre.foldl (configStep configs) s) e.1 e.2).2 = some w →
      ((pre ++ [e]).foldl (configStep configs) s).savedValid w.paramId = true ∧
      w.paramId ∈ ((pre ++ [e]).foldl (configStep configs) s).savedOrder ∧
      ∀ writes, ∃ w' ∈ (kconfuzzRestoreConfigActions configs writes
        (evs.foldl (configStep configs) s)).2, w'.paramId = w.paramId ∧ w'.file = w.file

/-- Along a run from `s`, whenever an action without `NO_RESTORE` reaches `write_file`, its
parameter is saved already or the read of the original value succeeds. -/
def SaveReadsSucceed (configs : List RuntimeConfigEntry) (s : ConfigState)
    (evs : List ConfigEvent) : Prop :=
  ∀ pre e post, evs = pre ++ e :: post → e.1.noRestore = false → e.1.Writes configs →
    (pre.foldl (configStep configs) s).savedValid e.1.paramId.toNat = true ∨ e.2.saveRead = .ok

/-- One action: after a write its parameter is saved exactly if it was saved before or the
read of the original value succeeded. -/
lemma savedValid_configStep_iff (hinv : SavedInv configs s) {e : ConfigEvent}
    (hr : e.1.noRestore = false) (hw : e.1.Writes configs) :
    (configStep configs s e).savedValid e.1.paramId.toNat = true ↔
      s.savedValid e.1.paramId.toNat = true ∨ e.2.saveRead = .ok := by
  unfold configStep
  rcases apply_cases configs s e.1 e.2 with
    ⟨-, hnw⟩ | ⟨-, -, hnw, -⟩ | ⟨entry, value, hentry, -, heq⟩
  · exact absurd hw hnw
  · exact absurd hw hnw
  · rw [heq]
    rcases savePhase_cases hinv hentry e.2.saveRead with
      ⟨hs, hsaved⟩ | ⟨hnew, ⟨errno, herr⟩, out, hs⟩ | ⟨-, hok, hs⟩ <;> rw [hs]
    · simp [hsaved.resolve_left (by simp [hr])]
    · simp [Bool.eq_false_iff.mpr (mt (hinv.valid_iff _).mp hnew), herr]
    · simp [hok]

/-- A run of config actions saves before it writes exactly if the read of the original value
succeeds whenever it is needed for a write. -/
theorem saveBeforeWrite_iff (hclean : s.Clean) (evs : List ConfigEvent) :
    SaveBeforeWrite configs s evs ↔ SaveReadsSucceed configs s evs := by
  have hrun : ∀ pre : List ConfigEvent, SavedInv configs (pre.foldl (configStep configs) s) :=
    hclean.savedInv.run
  have hsnoc : ∀ (pre : List ConfigEvent) e, (pre ++ [e]).foldl (configStep configs) s =
      configStep configs (pre.foldl (configStep configs) s) e := by
    intro pre e
    rw [foldl_append]
    rfl
  constructor
  · intro h pre e post heq hr hw
    rw [← savedValid_configStep_iff (hrun pre) hr hw, ← hsnoc]
    have hsome : (kconfuzzApplyConfigAction configs (pre.foldl (configStep configs) s) e.1
        e.2).2.isSome := apply_snd_isSome_iff.2 hw
    obtain ⟨w, hw'⟩ := Option.isSome_iff_exists.mp hsome
    have hparam : w.paramId = e.1.paramId.toNat := by
      rcases apply_cases configs (pre.foldl (configStep configs) s) e.1 e.2 with
        ⟨happ, -⟩ | ⟨_, -, -, happ⟩ | ⟨entry, value, -, -, happ⟩ <;> rw [happ] at hw' <;> simp at hw'
      rw [← hw']
    rw [← hparam]
    exact (h pre e post heq hr w hw').1
  · intro h pre e post heq hr w hw'
    rcases apply_cases configs (pre.foldl (configStep configs) s) e.1 e.2 with
      ⟨happ, -⟩ | ⟨_, -, -, happ⟩ | ⟨entry, value, hentry, hw, happ⟩ <;> rw [happ] at hw' <;> simp at hw'
    have hvalid : ((pre ++ [e]).foldl (configStep configs) s).savedValid e.1.paramId.toNat = true := by
      rw [hsnoc, savedValid_configStep_iff (hrun pre) hr hw]
      exact h pre e post heq hr hw
    have hmem := ((hrun (pre ++ [e])).valid_iff _).mp hvalid
    rw [← hw']
    refine ⟨hvalid, hmem, fun writes => ?_⟩
    -- the parameter is still saved when the run ends
    have hend : e.1.paramId.toNat ∈ (evs.foldl (configStep configs) s).savedOrder := by
      rw [heq, show pre ++ e :: post = (pre ++ [e]) ++ post by simp, foldl_append]
      exact mem_savedOrder_run (hrun (pre ++ [e])) hmem post
    exact (hrun evs).restore_attempts writes hend hentry

/-- The first entry of the generated table. -/
def vsyscall32 : RuntimeConfigEntry where
  name := "abi/vsyscall32"
  procPath := "/proc/sys/abi/vsyscall32"
  values := [[48], [49], [45, 49], [50], [50, 53, 53]]

/-- A process that has saved nothing yet, on a system where every proc file reads `1`. -/
def startState : ConfigState where
  files := fun _ => [49]
  savedValues := fun _ => []
  savedValid := fun _ => false
  savedOrder := []

lemma startState_clean : startState.Clean := ⟨rfl, fun _ => rfl⟩

theorem saveBeforeWrite_vsyscall32 :
    startState.Clean ∧
      (SaveBeforeWrite [vsyscall32] startState
          [({ paramId := 0, valueId := 0, flags := 0 }, ⟨.ok, .ok, .ok⟩)] ↔
        SaveReadsSucceed [vsyscall32] startState
          [({ paramId := 0, valueId := 0, flags := 0 }, ⟨.ok, .ok, .ok⟩)]) :=
  ⟨startState_clean, saveBeforeWrite_iff startState_clean _⟩

/-- The original cannot be read (`EACCES`), the write goes through: the file is changed with
nothing to restore it from. -/
theorem not_saveBeforeWrite_vsyscall32 :
    ¬ SaveBeforeWrite [vsyscall32] startState
      [({ paramId := 0, valueId := 0, flags := 0 }, ⟨.error 13, .ok, .ok⟩)] := by
  intro h
  have hsaved := (h [] _ [] rfl rfl
    { paramId := 0, file := vsyscall32.procPath, value := [48], ok := true } rfl).1
  exact absurd hsaved (by decide)

end KConfuzz.Executor
