import Mathlib.Data.List.Dedup
import KConfuzz.Lib.GradedSet

/-!
# Feedback signal (`pkg/signal/signal.go`, `pkg/fuzzer/cover.go`)

A signal gives elements priorities; a nil map is an empty one. `Cover` is what the fuzzer has seen
so far, and `minimize` selects inputs that together have every element with its best priority.
-/

namespace KConfuzz

open Lib.FiniteMap Lib.GradedSet

abbrev Signal := AList fun _ : UInt64 => ℤ

namespace Signal

/-- The conversion of a priority to `int8`. -/
def prioType (prio : UInt8) : ℤ := prio.toInt8.toInt

def empty (s : Signal) : Bool := s.keys.isEmpty

def fromRaw (raw : List UInt64) (prio : UInt8) : Signal :=
  raw.foldl (fun s e => s.insert e (prioType prio)) ∅

def diffRaw (s : Signal) (raw : List UInt64) (prio : UInt8) : Signal :=
  raw.foldl (fun res e =>
    if atLeast s e (prioType prio) then res else res.insert e (prioType prio)) ∅

def intersectsWith (s other : Signal) : Bool := s.entries.any fun e => atLeast other e.1 e.2

def intersection (s s1 : Signal) : Signal := common s s1

def merge (s s1 : Signal) : Signal := Lib.GradedSet.merge s s1

/-! ## Minimize -/

structure Context (α : Type) where
  signal : Signal
  context : α

/-- For an element its priority and the input it is from. -/
abbrev Covered := AList fun _ : UInt64 => ℤ × ℕ

def coverElem (i : ℕ) (covered : Covered) (e : Sigma fun _ : UInt64 => ℤ) : Covered :=
  match covered.lookup e.1 with
  | none => covered.insert e.1 (e.2, i)
  | some prev => if prev.1 < e.2 then covered.insert e.1 (e.2, i) else covered

def covered {α : Type} (corpus : List (Context α)) : Covered :=
  corpus.zipIdx.foldl (fun covered inp => inp.1.signal.entries.foldl (coverElem inp.2) covered) ∅

/-- The positions of the inputs that some element is from. -/
def indices {α : Type} (corpus : List (Context α)) : List ℕ :=
  ((covered corpus).entries.map fun e => e.2.2).dedup

/-- The order of the result is the one of an iteration over a map. -/
def minimize {α : Type} (order : Shuffle ℕ) (corpus : List (Context α)) : List α :=
  (order.order (indices corpus)).filterMap fun i => corpus[i]?.map Context.context

end Signal

structure Cover where
  maxSignal : Signal
  newSignal : Signal

/-- The part of a raw signal that is new, and the cover with it. -/
def Cover.addRawMaxSignal (cover : Cover) (signal : List UInt64) (prio : UInt8) : Signal × Cover :=
  let diff := cover.maxSignal.diffRaw signal prio
  if diff.empty then (diff, cover)
  else (diff, ⟨cover.maxSignal.merge diff, cover.newSignal.merge diff⟩)

/-- Hands over the new signal. -/
def Cover.grabSignalDelta (cover : Cover) : Signal × Cover :=
  (cover.newSignal, { cover with newSignal := ∅ })

end KConfuzz
