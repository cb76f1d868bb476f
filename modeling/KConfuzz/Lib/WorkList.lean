import Mathlib.Data.Nat.Notation

/-!
# Work lists

A queue of items is drained from the front; processing an item updates a state, may fail and may
find more items, which go to the end of the queue. `drain_total` is the rule for such loops: an
invariant of the state and the queue together, and a potential `p` that every item lowers, give
that the queue is empty in the end.
-/

namespace Lib.WorkList

variable {σ α ε : Type}

/-- Processes the items of the queue until it is empty, at most `fuel` of them; returns what is
left of the queue with the state. -/
def drain (step : σ → α → Except ε (σ × List α)) : ℕ → List α → σ → Except ε (σ × List α)
  | 0, queue, s => .ok (s, queue)
  | _ + 1, [], s => .ok (s, [])
  | fuel + 1, x :: queue, s =>
    match step s x with
    | .ok (s', found) => drain step fuel (queue ++ found) s'
    | .error err => .error err

variable {step : σ → α → Except ε (σ × List α)}

/-- With a measure that falls, the queue is emptied and the invariant kept. -/
lemma drain_total {I : σ → List α → Prop} {p : σ → List α → ℕ}
    (hstep : ∀ s x queue, I s (x :: queue) → ∃ s' found, step s x = .ok (s', found) ∧
      I s' (queue ++ found) ∧ p s' (queue ++ found) < p s (x :: queue))
    {fuel : ℕ} {queue : List α} {s : σ} (h : I s queue) (hfuel : p s queue ≤ fuel) :
    ∃ s', drain step fuel queue s = .ok (s', []) ∧ I s' [] := by
  induction fuel generalizing queue s with
  | zero =>
    cases queue with
    | nil => exact ⟨s, rfl, h⟩
    | cons x queue =>
      -- an item left in the queue would lower a potential of zero
      obtain ⟨_, _, _, _, hlt⟩ := hstep s x queue h
      omega
  | succ fuel ih =>
    cases queue with
    | nil => exact ⟨s, rfl, h⟩
    | cons x queue =>
      obtain ⟨s', found, hok, hI, hlt⟩ := hstep s x queue h
      simp only [drain, hok]
      exact ih hI (by omega)

end Lib.WorkList
