import KConfuzz.Executor.ConfigTheorems

/-!
# Restoring gives the initial files back

When no access fails, the saved originals track the files the program started with: a
parameter is saved before its file is written, a second parameter with the same path is
saved with an intermediate value that an older entry of the log shadows, and the restore
loop is `Lib.UndoLog.undo`.
-/

namespace KConfuzz.Executor

open List
open Lib.UndoLog (Tracks undo keys undo_of_notMem)

variable {configs : List RuntimeConfigEntry} {s : ConfigState} {a : ConfigAction}

/-! ## The saved originals as an undo log -/

/-- The files the restore writes and the values it writes to them, in its order. -/
def savedLog (configs : List RuntimeConfigEntry) (order : List ℕ) (values : ℕ → CString) :
    List (String × CString) :=
  order.filterMap fun p => configs[p]?.map fun entry => (entry.procPath, values p)

variable {p : ℕ} {entry : RuntimeConfigEntry}

lemma savedLog_cons (hentry : configs[p]? = some entry) (order : List ℕ) (values : ℕ → CString) :
    savedLog configs (p :: order) values = (entry.procPath, values p) :: savedLog configs order values := by
  simp [savedLog, hentry]

lemma savedLog_update {order : List ℕ} (hp : p ∉ order) (values : ℕ → CString) (v : CString) :
    savedLog configs order (Function.update values p v) = savedLog configs order values := by
  apply filterMap_congr
  intro q hq
  have hne : q ≠ p := fun h => hp (h ▸ hq)
  rw [Function.update_of_ne hne]

lemma procPath_mem_keys {order : List ℕ} (hp : p ∈ order) (hentry : configs[p]? = some entry)
    (values : ℕ → CString) :
    entry.procPath ∈ keys (savedLog configs order values) := by
  have hmem : (entry.procPath, values p) ∈ savedLog configs order values := by
    rw [savedLog, mem_filterMap]
    exact ⟨p, hp, by rw [hentry]; rfl⟩
  exact mem_map.mpr ⟨_, hmem, rfl⟩

/-- When every write succeeds, the restore loop undoes the log, clears the marks of the
parameters it visits and leaves the others. -/
lemma restoreLoop_eq_undo (order : List ℕ) (s : ConfigState) (hnodup : order.Nodup)
    (hlt : ∀ p ∈ order, p < configs.length) (hvalid : ∀ p ∈ order, s.savedValid p = true)
    (hshort : ∀ p ∈ order, (s.savedValues p).length < 512) :
    (restoreLoop configs (fun _ => .ok) order s).1.files
        = undo (savedLog configs order s.savedValues) s.files ∧
      (restoreLoop configs (fun _ => .ok) order s).1.savedOrder = [] ∧
      ∀ q, (restoreLoop configs (fun _ => .ok) order s).1.savedValid q
        = if q ∈ order then false else s.savedValid q := by
  induction order generalizing s with
  | nil => simp [restoreLoop, savedLog, undo]
  | cons p order ih =>
    obtain ⟨hp, hnodup⟩ := nodup_cons.mp hnodup
    obtain ⟨entry, hentry⟩ : ∃ entry, configs[p]? = some entry :=
      ⟨_, getElem?_eq_getElem (hlt p mem_cons_self)⟩
    have hne : ∀ q ∈ order, q ≠ p := fun q hq h => hp (h ▸ hq)
    have htake : (s.savedValues p).take 1023 = s.savedValues p := by
      have := hshort p mem_cons_self
      exact take_of_length_le (by omega)
    simp only [restoreLoop, hentry, hvalid p mem_cons_self, writeFile, htake]
    obtain ⟨hfiles, horder, hmarks⟩ := ih
      { s with
        files := Function.update s.files entry.procPath (s.savedValues p)
        savedValid := Function.update s.savedValid p false
        savedValues := Function.update s.savedValues p [] } hnodup
      (fun q hq => hlt q (mem_cons_of_mem p hq))
      (fun q hq => by
        simpa [Function.update_of_ne (hne q hq)] using hvalid q (mem_cons_of_mem p hq))
      (fun q hq => by
        simpa [Function.update_of_ne (hne q hq)] using hshort q (mem_cons_of_mem p hq))
    refine ⟨?_, horder, fun q => ?_⟩
    · rw [hfiles, savedLog_update hp, savedLog_cons hentry, undo]
    · rw [hmarks]
      by_cases hqp : q = p
      · simp [hqp]
      · simp [hqp]

/-! ## Tracking the initial files -/

/-- The bytes read back are the file's own: no white space around them and no NUL inside. -/
def Trimmed (v : List UInt8) : Prop := kconfuzzTrim v = v

instance (v : List UInt8) : Decidable (Trimmed v) := inferInstanceAs (Decidable (_ = _))

/-- The accesses of an action, all successful. -/
def ApplyEnv.allOk : ApplyEnv := { saveRead := .ok, flipRead := .ok, write := .ok }

/-- Undoing the saved originals gives the initial files. -/
def TracksFiles (configs : List RuntimeConfigEntry) (files : String → List UInt8)
    (s : ConfigState) : Prop :=
  Tracks files (savedLog configs s.savedOrder s.savedValues) s.files

variable {files : String → List UInt8}

/-- The save phase logs the original value, or an entry shadowed by an older one. -/
lemma TracksFiles.savePhase (hinv : SavedInv configs s) (ht : TracksFiles configs files s)
    (hentry : configs[a.paramId.toNat]? = some entry) (htrim : Trimmed (files entry.procPath))
    (hlen : (files entry.procPath).length < 512) (hr : a.noRestore = false) :
    TracksFiles configs files (savePhase configs s a entry .ok) ∧
      a.paramId.toNat ∈ (Executor.savePhase configs s a entry .ok).savedOrder := by
  rcases savePhase_cases hinv hentry .ok with
    ⟨heq, hsaved⟩ | ⟨-, ⟨errno, herr⟩, -⟩ | ⟨hnew, -, heq⟩
  · rw [heq]
    exact ⟨ht, (hinv.valid_iff _).mp (hsaved.resolve_left (by simp [hr]))⟩
  · cases herr
  · rw [heq]
    refine ⟨?_, mem_cons_self⟩
    dsimp only [TracksFiles]
    rw [savedLog_cons hentry, savedLog_update hnew, Function.update_self]
    apply Tracks.log ht
    by_cases hk : entry.procPath ∈ keys (savedLog configs s.savedOrder s.savedValues)
    · exact Or.inl hk
    · -- the file was not written yet: it holds its initial, trimmed value
      right
      have hsame : s.files entry.procPath = files entry.procPath := by
        rw [← ht, undo_of_notMem hk]
      rw [hsame, kconfuzzReadback, take_of_length_le (by omega)]
      exact htrim

/-- After an action, undoing the saved originals still gives the initial files. -/
lemma TracksFiles.configStep (hinv : SavedInv configs s) (ht : TracksFiles configs files s)
    (hfiles : ∀ entry ∈ configs, Trimmed (files entry.procPath) ∧ (files entry.procPath).length < 512)
    (hr : a.noRestore = false) :
    TracksFiles configs files (configStep configs s (a, .allOk)) := by
  unfold Executor.configStep
  rcases apply_cases configs s a .allOk with
    ⟨heq, -⟩ | ⟨entry, hentry, -, heq⟩ | ⟨entry, value, hentry, -, heq⟩ <;> rw [heq]
  · exact ht
  · obtain ⟨htrim, hlen⟩ := hfiles entry (mem_of_getElem? hentry)
    exact (ht.savePhase hinv hentry htrim hlen hr).1
  · obtain ⟨htrim, hlen⟩ := hfiles entry (mem_of_getElem? hentry)
    obtain ⟨hsave, hmem⟩ := ht.savePhase hinv hentry htrim hlen hr
    have hkey := procPath_mem_keys hmem hentry
      (Executor.savePhase configs s a entry .ok).savedValues
    have hwrite := Tracks.write hsave hkey (value.take 1023)
    rw [savePhase_files] at hwrite
    exact hwrite

/-! ## The restore -/

/-- A program's config actions, with every access of a proc file successful. -/
def okEvents (actions : List ConfigAction) : List ConfigEvent := actions.map fun a => (a, .allOk)

/-- After any sequence of actions without `NO_RESTORE` and the restore, every proc file holds
its initial value and nothing is saved, if every access succeeds and the initial values of
the registry's files are trimmed and shorter than the save buffer. -/
theorem restore_after_actions (hclean : s.Clean)
    (hfiles : ∀ entry ∈ configs,
      Trimmed (s.files entry.procPath) ∧ (s.files entry.procPath).length < 512)
    (actions : List ConfigAction) (hr : ∀ a ∈ actions, a.noRestore = false) :
    let s' := (kconfuzzRestoreConfigActions configs (fun _ => .ok)
      ((okEvents actions).foldl (configStep configs) s)).1
    s'.files = s.files ∧ s'.savedCount = 0 ∧ ∀ p, s'.savedValid p = false := by
  have hrun : SavedInv configs ((okEvents actions).foldl (configStep configs) s) ∧
      TracksFiles configs s.files ((okEvents actions).foldl (configStep configs) s) := by
    refine foldlRecOn
      (motive := fun s' => SavedInv configs s' ∧ TracksFiles configs s.files s')
      (okEvents actions) _ ⟨hclean.savedInv, ?_⟩ ?_
    · rw [TracksFiles, hclean.savedOrder]
      exact Tracks.refl s.files
    · rintro s' ⟨hinv, ht⟩ e he
      obtain ⟨a, ha, rfl⟩ := mem_map.mp he
      exact ⟨(hinv.configStep _).1, ht.configStep hinv hfiles (hr a ha)⟩
  obtain ⟨hinv, ht⟩ := hrun
  obtain ⟨hundo, horder, hmarks⟩ := restoreLoop_eq_undo _ _ hinv.nodup hinv.lt_count
    (fun p hp => (hinv.valid_iff p).mpr hp) hinv.short
  refine ⟨hundo.trans ht, ?_, fun p => ?_⟩
  · rw [kconfuzzRestoreConfigActions, ConfigState.savedCount, horder]
    rfl
  · rw [kconfuzzRestoreConfigActions, hmarks]
    split
    · rfl
    · rename_i hp
      rw [← hinv.valid_iff] at hp
      exact Bool.eq_false_iff.mpr hp

/-- Two entries for one file, each flipped while the other is saved. -/
theorem restore_after_aliased_flips :
    (kconfuzzRestoreConfigActions [vsyscall32, { vsyscall32 with name := "abi/alias" }]
      (fun _ => .ok)
      ((okEvents [⟨0, 0, 2⟩, ⟨1, 3, 0⟩, ⟨0, 9, 2⟩, ⟨7, 0, 0⟩]).foldl
        (configStep [vsyscall32, { vsyscall32 with name := "abi/alias" }]) startState)).1.files
      = startState.files :=
  (restore_after_actions startState_clean (by decide) _ (by decide)).1

end KConfuzz.Executor
