import KConfuzz.Lib.StableSort
import KConfuzz.Signal.Signal

/-!
# The corpus (`pkg/corpus`)

Programs with the signal and the coverage they are kept for. `Save` adds a program, or what is new
about one that is there; `Minimize` keeps programs that have all of the signal. Beside the map
there are lists to choose programs from, one of all programs and one for each focus area.

An item is not changed once it is made: `ref` stands for its address, so equal items are the same.
The total coverage and the events for subscribers, which nothing here reads, are left out.
-/

namespace KConfuzz.Corpus

open Lib.FiniteMap Lib.StableSort

/-- What the corpus asks a program. -/
structure Env (P : Type) where
  sig : P → String
  containsAny : P → Bool
  numCalls : P → ℕ

structure ItemUpdate where
  call : ℤ
  rawCover : List UInt64
deriving DecidableEq

structure Item (P : Type) where
  ref : ℕ
  sig : String
  call : ℤ
  prog : P
  hasAny : Bool
  signal : Signal
  cover : List UInt64
  updates : List ItemUpdate
  areas : List ℕ

structure NewInput (P : Type) where
  prog : P
  call : ℤ
  signal : Signal
  cover : List UInt64
  rawCover : List UInt64

structure ProgramsList (P : Type) where
  items : List (Item P)
  sumPrios : ℕ
  accPrios : List ℕ

structure FocusAreaState (P : Type) where
  coverPCs : List UInt64
  list : ProgramsList P

structure Corpus (P : Type) where
  progsMap : AList fun _ : String => Item P
  signal : Signal
  list : ProgramsList P
  focusAreas : List (FocusAreaState P)
  nextRef : ℕ

variable {P : Type} (env : Env P)

def ProgramsList.empty : ProgramsList P := ⟨[], 0, []⟩

def newFocusedCorpus (areas : List (List UInt64)) : Corpus P where
  progsMap := ∅
  signal := ∅
  list := .empty
  focusAreas := areas.map fun coverPCs => ⟨coverPCs, .empty⟩
  nextRef := 0

def ProgramsList.saveProgram (pl : ProgramsList P) (item : Item P) (signal : Signal) :
    ProgramsList P :=
  let prio := if signal.keys.length = 0 then 1 else signal.keys.length
  ⟨pl.items ++ [item], pl.sumPrios + prio, pl.accPrios ++ [pl.sumPrios + prio]⟩

def FocusAreaState.matches (area : FocusAreaState P) (coverDelta : List UInt64) : Bool :=
  coverDelta.any fun pc => decide (pc ∈ area.coverPCs)

/-- `item.areas` after `applyFocusAreas`: only the first area that matches is noted, and only if
there was none before. -/
def notedAreas (focusAreas : List (FocusAreaState P)) (areas : List ℕ) (coverDelta : List UInt64) :
    List ℕ :=
  if areas = [] then
    ((focusAreas.zipIdx.find? fun area => area.1.matches coverDelta).map Prod.snd).toList
  else areas

/-- Saves an item in the areas whose coverage it has. -/
def applyFocusAreas (focusAreas : List (FocusAreaState P)) (item : Item P)
    (coverDelta : List UInt64) : List (FocusAreaState P) :=
  focusAreas.map fun area =>
    if area.matches coverDelta then { area with list := area.list.saveProgram item item.signal }
    else area

def maxUpdates : ℕ := 32

/-- The item that replaces `old`, before the focus areas are applied. -/
def mergedItem (ref : ℕ) (old : Item P) (inp : NewInput P) : Item P :=
  { old with
    ref := ref
    sig := env.sig inp.prog
    signal := old.signal.merge inp.signal
    cover := (old.cover ++ inp.cover).dedup
    updates := if old.updates.length < maxUpdates then old.updates ++ [⟨inp.call, inp.rawCover⟩]
      else old.updates }

def newItem (ref : ℕ) (inp : NewInput P) : Item P where
  ref := ref
  sig := env.sig inp.prog
  call := inp.call
  prog := inp.prog
  hasAny := env.containsAny inp.prog
  signal := inp.signal
  cover := inp.cover
  updates := [⟨inp.call, inp.rawCover⟩]
  areas := []

def withAreas (corpus : Corpus P) (inp : NewInput P) (item : Item P) : Item P :=
  { item with areas := notedAreas corpus.focusAreas item.areas inp.cover }

def Corpus.save (corpus : Corpus P) (inp : NewInput P) : Corpus P :=
  match corpus.progsMap.lookup (env.sig inp.prog) with
  | some old =>
    let item := withAreas corpus inp (mergedItem env corpus.nextRef old inp)
    { corpus with
      progsMap := corpus.progsMap.insert (env.sig inp.prog) item
      focusAreas := applyFocusAreas corpus.focusAreas item inp.cover
      signal := corpus.signal.merge inp.signal
      nextRef := corpus.nextRef + 1 }
  | none =>
    let item := withAreas corpus inp (newItem env corpus.nextRef inp)
    { corpus with
      progsMap := corpus.progsMap.insert (env.sig inp.prog) item
      focusAreas := applyFocusAreas corpus.focusAreas item inp.cover
      list := corpus.list.saveProgram item inp.signal
      signal := corpus.signal.merge inp.signal
      nextRef := corpus.nextRef + 1 }

/-- The order of the inputs of `Minimize`: programs without squashed arguments first, then by the
number of calls. -/
def inputLess (first second : Signal.Context (Item P)) : Bool :=
  if first.context.hasAny ≠ second.context.hasAny then !first.context.hasAny
  else decide (env.numCalls first.context.prog < env.numCalls second.context.prog)

/-- Puts one of the items that are kept into the corpus. -/
def Corpus.keepItem (corpus : Corpus P) (inp : Item P) : Corpus P :=
  { corpus with
    progsMap := corpus.progsMap.insert inp.sig inp
    list := corpus.list.saveProgram inp inp.signal
    focusAreas := corpus.focusAreas.zipIdx.map fun area =>
      if area.2 ∈ inp.areas then { area.1 with list := area.1.list.saveProgram inp inp.signal }
      else area.1 }

/-- The inputs come in the order of an iteration over a map, and so do the items that are kept. -/
def Corpus.minimize (corpus : Corpus P) (inputs : Shuffle (Item P)) (kept : Shuffle ℕ) : Corpus P :=
  let inputs := sliceStable (inputLess env)
    ((inputs.order (corpus.progsMap.entries.map Sigma.snd)).map fun inp => ⟨inp.signal, inp⟩)
  (Signal.minimize kept inputs).foldl Corpus.keepItem
    { corpus with
      progsMap := ∅
      list := .empty
      focusAreas := corpus.focusAreas.map fun area => { area with list := .empty } }

inductive Op (P : Type)
  | save (inp : NewInput P)
  | minimize (inputs : Shuffle (Item P)) (kept : Shuffle ℕ)

def Corpus.step (corpus : Corpus P) : Op P → Corpus P
  | .save inp => corpus.save env inp
  | .minimize inputs kept => corpus.minimize env inputs kept

def run (areas : List (List UInt64)) (ops : List (Op P)) : Corpus P :=
  ops.foldl (Corpus.step env) (newFocusedCorpus areas)

end KConfuzz.Corpus
