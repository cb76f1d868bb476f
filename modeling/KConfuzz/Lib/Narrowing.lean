import Mathlib.Data.Nat.Notation
import KConfuzz.Lib.Oracle

/-!
# Searches that narrow a candidate down

Such a search has a candidate at hand, asks about smaller ones, and takes a smaller one when the
answer is yes. The oracle looks at nothing but the candidate, but the answers are remembered by
key, and two candidates can have the same key. When candidates of the same key have the same size,
a yes is never heard again, because everything that is asked later is smaller: memory only refuses.
So a search is known from the candidate at hand and the keys that were refused.
-/

namespace Lib.Oracle

variable {α κ : Type} [DecidableEq κ]

/-- The candidate at hand and the keys of the candidates that were refused. -/
structure Narrowing (α κ : Type) where
  cur : α
  refused : List κ

namespace Narrowing

variable {key : α → κ} {wanted wanted' : α → Bool} {s : Narrowing α κ} {a : α}

/-- A candidate is taken when it is wanted, unless one of the same key was refused before. -/
def offer (key : α → κ) (wanted : α → Bool) (s : Narrowing α κ) (a : α) : Narrowing α κ :=
  if wanted a ∧ key a ∉ s.refused then { s with cur := a }
  else { s with refused := key a :: s.refused }

lemma offer_of_wanted (h : wanted a) (hkey : key a ∉ s.refused) :
    s.offer key wanted a = { s with cur := a } :=
  if_pos ⟨h, hkey⟩

lemma offer_of_refused (h : ¬ wanted a ∨ key a ∈ s.refused) :
    s.offer key wanted a = { s with refused := key a :: s.refused } :=
  if_neg fun hand => h.elim (fun h => h hand.1) hand.2

/-- What is refused by memory is refused whatever is wanted. -/
lemma offer_congr (h : key a ∉ s.refused → (wanted a ↔ wanted' a)) :
    s.offer key wanted a = s.offer key wanted' a := by
  unfold offer
  by_cases hkey : key a ∈ s.refused
  · simp only [hkey, not_true_eq_false, and_false]
  · simp only [h hkey]

end Narrowing

/-- The log of a search with the given state: no is remembered for the refused keys, and yes only
for candidates that are not smaller than the one at hand. -/
structure Tracks (key : α → κ) (size : α → ℕ) (log : Log α κ) (s : Narrowing α κ) : Prop where
  refused : ∀ k, log.answers.lookup k = some false ↔ k ∈ s.refused
  accepted : ∀ k, log.answers.lookup k = some true → ∃ a, key a = k ∧ size s.cur ≤ size a

variable {key : α → κ} {size : α → ℕ}

lemma tracks_empty (a : α) : Tracks key size Log.empty { cur := a, refused := [] } := by
  constructor
  · simp [Log.empty]
  · intro k hk
    simp [Log.empty] at hk

lemma lookup_cons_ite (k k' : κ) (b : Bool) (answers : List (κ × Bool)) :
    ((k', b) :: answers).lookup k = if k = k' then some b else answers.lookup k := by
  by_cases hk : k = k'
  · simp [hk]
  · have hbeq : (k == k') = false := by simpa using hk
    simp [List.lookup_cons, hbeq, hk]

variable {oracle : List α → Bool}

lemma ask_of_some {a : α} {log : Log α κ} {answer : Bool}
    (h : log.answers.lookup (key a) = some answer) : ask oracle key a log = (answer, log) := by
  unfold ask
  rw [h]

lemma ask_of_none {a : α} {log : Log α κ} (h : log.answers.lookup (key a) = none) :
    ask oracle key a log = (oracle (log.asked ++ [a]),
      { asked := log.asked ++ [a]
        answers := (key a, oracle (log.asked ++ [a])) :: log.answers }) := by
  unfold ask
  rw [h]

variable {log : Log α κ} {s : Narrowing α κ} {a : α}

/-- A refused candidate is remembered. -/
lemma Tracks.refuse (h : Tracks key size log s) (asked : List α) :
    Tracks key size { asked, answers := (key a, false) :: log.answers }
      { s with refused := key a :: s.refused } := by
  constructor
  · intro k
    rw [lookup_cons_ite, List.mem_cons, ← h.refused]
    by_cases hk : k = key a
    · simp [hk]
    · simp [hk]
  · intro k hyes
    rw [lookup_cons_ite] at hyes
    by_cases hk : k = key a
    · simp [hk] at hyes
    · rw [if_neg hk] at hyes
      exact h.accepted k hyes

/-- An accepted candidate becomes the current one. -/
lemma Tracks.accept (h : Tracks key size log s) (hlookup : log.answers.lookup (key a) = none)
    (hsize : size a ≤ size s.cur) (asked : List α) :
    Tracks key size { asked, answers := (key a, true) :: log.answers } { s with cur := a } := by
  constructor
  · intro k
    rw [lookup_cons_ite, ← h.refused]
    by_cases hk : k = key a
    · simp [hk, hlookup]
    · simp [hk]
  · intro k hyes
    rw [lookup_cons_ite] at hyes
    by_cases hk : k = key a
    · exact ⟨a, hk.symm, Nat.le_refl _⟩
    · rw [if_neg hk] at hyes
      obtain ⟨b, hb, hle⟩ := h.accepted k hyes
      exact ⟨b, hb, Nat.le_trans hsize hle⟩

/-- The answer about a smaller candidate is the one that the state of the search tells. -/
lemma Tracks.ask {wanted : α → Bool} (horacle : ∀ asked, oracle (asked ++ [a]) = wanted a)
    (hkey : ∀ a b, key a = key b → size a = size b) (h : Tracks key size log s)
    (hsize : size a < size s.cur) :
    (if (ask oracle key a log).1 then a else s.cur) = (s.offer key wanted a).cur ∧
      Tracks key size (ask oracle key a log).2 (s.offer key wanted a) := by
  cases hlookup : log.answers.lookup (key a) with
  | some answer =>
    rw [ask_of_some hlookup]
    cases answer with
    | true =>
      -- only something that is not smaller than the candidate at hand was accepted
      obtain ⟨b, hb, hle⟩ := h.accepted (key a) hlookup
      have heq := hkey b a hb
      omega
    | false =>
      have hrefused := (h.refused (key a)).mp hlookup
      rw [Narrowing.offer_of_refused (.inr hrefused)]
      refine ⟨rfl, ?_, h.accepted⟩
      intro k
      rw [h.refused k, List.mem_cons]
      constructor
      · exact Or.inr
      · intro hk
        rcases hk with rfl | hk
        · exact hrefused
        · exact hk
  | none =>
    rw [ask_of_none hlookup, horacle]
    cases hwanted : wanted a with
    | true =>
      have hnot : key a ∉ s.refused := by
        rw [← h.refused, hlookup]
        simp
      rw [Narrowing.offer_of_wanted hwanted hnot]
      exact ⟨rfl, h.accept hlookup (Nat.le_of_lt hsize) _⟩
    | false =>
      rw [Narrowing.offer_of_refused (.inl (by simp [hwanted]))]
      exact ⟨rfl, h.refuse _⟩

end Lib.Oracle
