import Mathlib.Data.List.Nodup

/-!
# Logs of writes to a map

A log is a list of writes; `key` and `value` say which entry a write sets and to what, where
`none` removes the entry. The last write to a key decides (`exists_last_write`,
`applyWrites_of_notMem`), so part of a log may be applied before the log itself without a
difference (`applyWrites_redo`), and a log with one write for each entry of a map rebuilds the
map (`applyWrites_of_nodup`).
-/

namespace Lib.MapLog

open List

variable {κ ν ω : Type} [DecidableEq κ] (key : ω → κ) (value : ω → Option ν)

def applyWrite (map : κ → Option ν) (w : ω) : κ → Option ν :=
  Function.update map (key w) (value w)

def applyWrites (map : κ → Option ν) (log : List ω) : κ → Option ν :=
  log.foldl (applyWrite key value) map

variable {key value} {map : κ → Option ν} {log log' : List ω} {k : κ}

lemma applyWrites_append (map : κ → Option ν) (log log' : List ω) :
    applyWrites key value map (log ++ log') =
      applyWrites key value (applyWrites key value map log) log' :=
  foldl_append

lemma applyWrites_of_notMem (h : k ∉ log.map key) : applyWrites key value map log k = map k := by
  induction log generalizing map with
  | nil => rfl
  | cons w log ih =>
    simp only [map_cons, mem_cons, not_or] at h
    show applyWrites key value (applyWrite key value map w) log k = map k
    rw [ih h.2, applyWrite, Function.update_of_ne h.1]

variable (value) in
/-- For a key that is written, the map before does not matter. -/
lemma exists_last_write (h : k ∈ log.map key) :
    ∃ w ∈ log, key w = k ∧ ∀ map, applyWrites key value map log k = value w := by
  induction log with
  | nil => cases h
  | cons w log ih =>
    by_cases htail : k ∈ log.map key
    · obtain ⟨w', hw', hkey, hlast⟩ := ih htail
      exact ⟨w', mem_cons_of_mem w hw', hkey, fun map => hlast _⟩
    · have hw : k = key w := by
        rw [map_cons, mem_cons] at h
        exact h.resolve_right htail
      refine ⟨w, mem_cons_self, hw.symm, fun map => ?_⟩
      show applyWrites key value (applyWrite key value map w) log k = value w
      rw [applyWrites_of_notMem htail, hw, applyWrite, Function.update_self]

/-- Writes that are done again by the log leave no trace. -/
lemma applyWrites_redo (hsub : ∀ w ∈ log', w ∈ log) (map : κ → Option ν) :
    applyWrites key value (applyWrites key value map log') log = applyWrites key value map log := by
  funext k
  by_cases hk : k ∈ log.map key
  · obtain ⟨w, -, -, hlast⟩ := exists_last_write value hk
    rw [hlast, hlast]
  · have hk' : k ∉ log'.map key := by
      intro hmem
      obtain ⟨w, hw, hkey⟩ := mem_map.mp hmem
      exact hk (mem_map.mpr ⟨w, hsub w hw, hkey⟩)
    rw [applyWrites_of_notMem hk, applyWrites_of_notMem hk, applyWrites_of_notMem hk']

lemma exists_write_of_applyWrites {v : ν}
    (h : applyWrites key value (fun _ => none) log k = some v) :
    ∃ w ∈ log, key w = k ∧ value w = some v := by
  by_cases hk : k ∈ log.map key
  · obtain ⟨w, hw, hkey, hlast⟩ := exists_last_write value hk
    rw [hlast] at h
    exact ⟨w, hw, hkey, h⟩
  · rw [applyWrites_of_notMem hk] at h
    cases h

lemma applyWrites_of_forall {v : Option ν} (hk : k ∈ log.map key)
    (hall : ∀ w ∈ log, key w = k → value w = v) : applyWrites key value map log k = v := by
  obtain ⟨w, hw, hkey, hlast⟩ := exists_last_write value hk
  rw [hlast]
  exact hall w hw hkey

/-- With one write for each key, every write is the last one to its key. -/
lemma applyWrites_of_nodup (hnodup : (log.map key).Nodup) {w : ω} (hw : w ∈ log) :
    applyWrites key value map log (key w) = value w := by
  apply applyWrites_of_forall (mem_map.mpr ⟨w, hw, rfl⟩)
  intro w' hw' hkey
  rw [inj_on_of_nodup_map hnodup hw' hw hkey]

end Lib.MapLog
