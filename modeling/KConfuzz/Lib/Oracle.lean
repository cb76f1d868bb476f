import Mathlib.Init

/-!
# Searches that ask an oracle

A search asks about one candidate after another and goes on by the answers. The oracle may
answer as it likes, with everything it was asked before in mind; a candidate whose key was seen
already is answered from memory. `Keeps I m Q` is the invariant rule: the search `m` only asks
about candidates that satisfy `I`, and its result satisfies `Q`.
-/

namespace Lib.Oracle

variable {α κ β γ : Type}

/-- The candidates the oracle was asked about, the latest last, and its answers by key. -/
structure Log (α κ : Type) where
  asked : List α
  answers : List (κ × Bool)

abbrev Search (α κ : Type) := StateM (Log α κ)

def Log.empty : Log α κ := { asked := [], answers := [] }

/-- `oracle` sees all candidates it was asked about, this one last. -/
def ask [BEq κ] (oracle : List α → Bool) (key : α → κ) (a : α) : Search α κ Bool := fun log =>
  match log.answers.lookup (key a) with
  | some answer => (answer, log)
  | none =>
    let asked := log.asked ++ [a]
    (oracle asked, { asked, answers := (key a, oracle asked) :: log.answers })

/-- Only candidates with `I` are asked about, and the result has `Q`. -/
def Keeps (I : α → Prop) (m : Search α κ β) (Q : β → Prop) : Prop :=
  ∀ log, (∀ a ∈ log.asked, I a) → (∀ a ∈ (m log).2.asked, I a) ∧ Q (m log).1

variable {I : α → Prop} {Q : β → Prop} {R : γ → Prop}

lemma keeps_pure {b : β} (h : Q b) : Keeps I (pure b : Search α κ β) Q := fun _ hlog => ⟨hlog, h⟩

lemma Keeps.bind {m : Search α κ β} (hm : Keeps I m Q) {f : β → Search α κ γ}
    (hf : ∀ b, Q b → Keeps I (f b) R) : Keeps I (m >>= f) R := by
  intro log hlog
  obtain ⟨hasked, hb⟩ := hm log hlog
  exact hf (m log).1 hb (m log).2 hasked

lemma keeps_ask [BEq κ] (oracle : List α → Bool) (key : α → κ) {a : α} (ha : I a) :
    Keeps I (ask oracle key a) fun _ => True := by
  intro log hlog
  unfold ask
  split
  · exact ⟨hlog, trivial⟩
  · refine ⟨?_, trivial⟩
    intro b hb
    rcases List.mem_append.mp hb with hb | hb
    · exact hlog b hb
    · rw [List.mem_singleton.mp hb]
      exact ha

lemma keeps_foldlM {f : β → γ → Search α κ β} {l : List γ}
    (hf : ∀ b, Q b → ∀ c ∈ l, Keeps I (f b c) Q) {b : β} (hb : Q b) :
    Keeps I (l.foldlM f b) Q := by
  induction l generalizing b with
  | nil => exact keeps_pure hb
  | cons c l ih =>
    exact (hf b hb c List.mem_cons_self).bind fun b' hb' =>
      ih (fun b hb c' hc' => hf b hb c' (List.mem_cons_of_mem c hc')) hb'

end Lib.Oracle
