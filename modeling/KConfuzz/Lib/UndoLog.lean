import Mathlib.Logic.Function.Basic

/-!
# Undo logs

A store `K → V` together with a log of the values its keys held before they were
overwritten, newest entry first. `undo` writes the logged values back, newest first, so
what a key holds at the end is decided by its *oldest* entry. `Tracks s₀ log s` says that
undoing `log` in `s` gives back `s₀`; the two rules below are the only ways a client may
change the pair: log a value (the original one, unless the key is logged already) and
overwrite a logged key.
-/

namespace Lib.UndoLog

variable {K V : Type*}

/-- The keys the log holds a value for. -/
def keys (log : List (K × V)) : List K := log.map Prod.fst

@[simp] lemma keys_nil : keys ([] : List (K × V)) = [] := rfl

@[simp] lemma keys_cons (e : K × V) (log : List (K × V)) : keys (e :: log) = e.1 :: keys log := rfl

variable [DecidableEq K]

/-- Write the logged values back, newest entry first. -/
def undo : List (K × V) → (K → V) → K → V
  | [], s => s
  | e :: log, s => undo log (Function.update s e.1 e.2)

lemma undo_of_notMem {log : List (K × V)} {k : K} (h : k ∉ keys log) (s : K → V) :
    undo log s k = s k := by
  induction log generalizing s with
  | nil => rfl
  | cons e log ih =>
    rw [keys_cons, List.mem_cons, not_or] at h
    rw [undo, ih h.2, Function.update_of_ne h.1]

/-- What a logged key holds does not matter to `undo`. -/
lemma undo_update {log : List (K × V)} {k : K} (h : k ∈ keys log) (s : K → V) (v : V) :
    undo log (Function.update s k v) = undo log s := by
  induction log generalizing s with
  | nil => simp at h
  | cons e log ih =>
    rw [undo, undo]
    by_cases hk : k = e.1
    · rw [hk, Function.update_idem]
    · have hmem : k ∈ keys log := by
        rw [keys_cons, List.mem_cons] at h
        exact h.resolve_left hk
      rw [Function.update_comm hk, ih hmem]

/-- Undoing `log` in the store `s` gives back `s₀`. -/
def Tracks (s₀ : K → V) (log : List (K × V)) (s : K → V) : Prop := undo log s = s₀

lemma Tracks.refl (s : K → V) : Tracks s [] s := rfl

/-- Logging a key keeps track of the original store, if the key is logged already (the new
entry is then shadowed by the older one) or the logged value is the original one. -/
lemma Tracks.log {s₀ s : K → V} {log : List (K × V)} (h : Tracks s₀ log s) {k : K} {v : V}
    (hv : k ∈ keys log ∨ v = s k) : Tracks s₀ ((k, v) :: log) s := by
  rcases hv with hmem | rfl
  · rw [Tracks, undo, undo_update hmem]
    exact h
  · rw [Tracks, undo, Function.update_eq_self]
    exact h

lemma Tracks.write {s₀ s : K → V} {log : List (K × V)} (h : Tracks s₀ log s) {k : K}
    (hk : k ∈ keys log) (v : V) : Tracks s₀ log (Function.update s k v) := by
  rw [Tracks, undo_update hk]
  exact h

end Lib.UndoLog
