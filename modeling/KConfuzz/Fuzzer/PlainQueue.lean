import Mathlib.Data.Int.Notation
import KConfuzz.Lib.ExceptFold

/-!
# The queue of requests (`pkg/fuzzer/queue/queue.go`)

`PlainQueue` hands out requests from the front of a slice without moving the others. When more
than half of a long slice is consumed, `Submit` moves the live requests to its front. What is left
to hand out behaves like a list (`fifoStep`).
-/

namespace KConfuzz.Fuzzer

open Lib.ExceptFold List

variable {ρ : Type}

/-- The slots hold pointers to requests; those before `pos` are consumed. -/
structure PlainQueue (ρ : Type) where
  queue : List (Option ρ)
  pos : ℕ

namespace PlainQueue

def plain : PlainQueue ρ := { queue := [], pos := 0 }

def len (pq : PlainQueue ρ) : ℤ := (pq.queue.length : ℤ) - pq.pos

def minSizeToCompact : ℕ := 128

/-- The built-in `copy`. -/
def copySlots (dst src : List (Option ρ)) : List (Option ρ) :=
  src.take dst.length ++ dst.drop src.length

/-- The loop that takes `pos` slots from the end of the slice. -/
def popSlots : ℕ → List (Option ρ) → Except String (List (Option ρ))
  | 0, queue => .ok queue
  | pos + 1, queue =>
    if queue.length = 0 then .error "index out of range"
    else
      let newLen := queue.length - 1
      popSlots pos ((queue.set newLen none).take newLen)

def compact (pq : PlainQueue ρ) : Except String (PlainQueue ρ) := do
  failIf (pq.pos > pq.queue.length) "slice bounds out of range"
  let queue ← popSlots pq.pos (copySlots pq.queue (pq.queue.drop pq.pos))
  return { queue, pos := 0 }

def submit (pq : PlainQueue ρ) (req : Option ρ) : Except String (PlainQueue ρ) := do
  -- It doesn't make sense to compact the queue too often.
  let pq ← if pq.pos > pq.queue.length / 2 ∧ pq.queue.length ≥ minSizeToCompact then pq.compact
    else .ok pq
  return { pq with queue := pq.queue ++ [req] }

def next (pq : PlainQueue ρ) : Except String (Option ρ × PlainQueue ρ) :=
  if pq.pos = pq.queue.length then .ok (none, pq)
  else
    match pq.queue[pq.pos]? with
    | none => .error "index out of range"
    | some ret => .ok (ret, { queue := pq.queue.set pq.pos none, pos := pq.pos + 1 })

/-- A call of a method. -/
inductive Op (ρ : Type) where
  | submit (req : Option ρ)
  | next
  | len

/-- What a method returns. -/
inductive Reply (ρ : Type) where
  | submitted
  | request (req : Option ρ)
  | length (n : ℤ)

def step (pq : PlainQueue ρ) : Op ρ → Except String (Reply ρ × PlainQueue ρ)
  | .submit req => do return (.submitted, ← pq.submit req)
  | .next => do
    let (req, pq) ← pq.next
    return (.request req, pq)
  | .len => .ok (.length pq.len, pq)

/-- A list from which requests are taken in the order in which they were put in. -/
def fifoStep : List (Option ρ) → Op ρ → Except String (Reply ρ × List (Option ρ))
  | l, .submit req => .ok (.submitted, l ++ [req])
  | [], .next => .ok (.request none, [])
  | req :: l, .next => .ok (.request req, l)
  | l, .len => .ok (.length l.length, l)

lemma popSlots_append (l l' : List (Option ρ)) : popSlots l'.length (l ++ l') = .ok l := by
  induction l' using List.reverseRecOn with
  | nil => rw [append_nil, length_nil, popSlots]
  | append_singleton l' slot ih =>
    have hlast : (l ++ l' ++ [slot]).length - 1 = (l ++ l').length := by simp
    rw [length_append, length_singleton, popSlots, if_neg (by simp), ← append_assoc]
    dsimp only
    rw [hlast, set_append_right _ _ (Nat.le_refl _), take_left, ih]

variable {pq : PlainQueue ρ} {l : List (Option ρ)} (h : pq.queue = replicate pq.pos none ++ l)
include h

lemma length_of_replicate : pq.queue.length = pq.pos + l.length := by
  rw [h, length_append, length_replicate]

lemma drop_of_replicate : pq.queue.drop pq.pos = l := by
  rw [h, drop_left' length_replicate]

lemma compact_eq : pq.compact = .ok ⟨l, 0⟩ := by
  have hlength := length_of_replicate h
  have hcopy : copySlots pq.queue (pq.queue.drop pq.pos) = l ++ pq.queue.drop l.length := by
    rw [copySlots, drop_of_replicate h, take_of_length_le (by omega)]
  have hpop := popSlots_append l (pq.queue.drop l.length)
  rw [length_drop, hlength, Nat.add_sub_cancel, ← hcopy] at hpop
  simp only [compact, failIf, if_neg (show ¬ pq.pos > pq.queue.length by omega), hpop, bind,
    Except.bind]
  rfl

/-- If the consumed slots are empty, the queue does what the list of the others does. -/
lemma step_refines (op : Op ρ) :
    ∃ reply pq' l', pq.step op = .ok (reply, pq') ∧ fifoStep l op = .ok (reply, l') ∧
      pq'.queue = replicate pq'.pos none ++ l' := by
  have hlength := length_of_replicate h
  cases op with
  | submit req =>
    refine ⟨.submitted, if pq.pos > pq.queue.length / 2 ∧ pq.queue.length ≥ minSizeToCompact then
      ⟨l ++ [req], 0⟩ else ⟨pq.queue ++ [req], pq.pos⟩, l ++ [req], ?_, rfl, ?_⟩
    · simp only [step, submit, compact_eq h]
      split <;> rfl
    · split
      · rfl
      · show pq.queue ++ [req] = _
        rw [h, append_assoc]
  | next =>
    cases l with
    | nil =>
      refine ⟨.request none, pq, [], ?_, rfl, h⟩
      simp only [step, next, if_pos (show pq.pos = pq.queue.length from hlength.symm)]
      rfl
    | cons req l =>
      rw [length_cons] at hlength
      have hget : pq.queue[pq.pos]? = some req := by
        rw [h]
        simp
      refine ⟨.request req, ⟨pq.queue.set pq.pos none, pq.pos + 1⟩, l, ?_, rfl, ?_⟩
      · simp only [step, next, if_neg (show pq.pos ≠ pq.queue.length by omega), hget]
        rfl
      · show pq.queue.set pq.pos none = replicate (pq.pos + 1) none ++ l
        rw [h, set_append_right _ _ (by simp), replicate_succ']
        simp
  | len =>
    refine ⟨.length l.length, pq, l, ?_, rfl, h⟩
    have hlen : pq.len = l.length := by
      rw [len]
      omega
    rw [step, hlen]

omit h in
/-- A queue replies to any sequence of calls what a list replies. The consumed slots are within
the slice and empty. -/
theorem plainQueue_refines_fifo (ops : List (Op ρ)) :
    ∃ replies pq l, mapAccumM step (plain : PlainQueue ρ) ops = .ok (replies, pq) ∧
      mapAccumM fifoStep [] ops = .ok (replies, l) ∧ pq.queue.drop pq.pos = l ∧
      pq.pos ≤ pq.queue.length ∧ ∀ slot ∈ pq.queue.take pq.pos, slot = none := by
  obtain ⟨replies, pq, l, hrun, hfifo, h⟩ := mapAccumM_refines
    (fun (pq : PlainQueue ρ) l => pq.queue = replicate pq.pos none ++ l)
    (fun h op => step_refines h op) (show plain.queue = replicate 0 none ++ [] from rfl) ops
  refine ⟨replies, pq, l, hrun, hfifo, drop_of_replicate h, ?_, ?_⟩
  · have hlength := length_of_replicate h
    omega
  · rw [h, take_left' length_replicate]
    exact fun slot hslot => eq_of_mem_replicate hslot

end PlainQueue

end KConfuzz.Fuzzer
