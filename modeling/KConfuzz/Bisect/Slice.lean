import Mathlib.Data.Int.Notation
import Mathlib.Data.Nat.Notation

/-!
# Slice minimization

`pkg/bisect/minimize`: given a predicate that holds for a slice, find a smaller subsequence for
which it still holds. The slice is cut into chunks, those without which the predicate still holds
are dropped, and the others are cut again until they are single elements. `SliceWithFixed` runs
this on the positions of the elements that are not fixed.

The predicate may fail with an error, which ends the search.
-/

namespace KConfuzz.Bisect

variable {α ε : Type}

structure Config (α ε : Type) where
  pred : List α → Except ε Bool
  /-- A limit on the number of predicate calls if positive. -/
  maxSteps : ℤ
  /-- A limit on the number of chunks if positive. -/
  maxChunks : ℤ
  /-- The comparison `math.Log2(float64(size)) > float64(MaxSteps)` of floating-point numbers. -/
  log2Exceeds : ℕ → ℤ → Bool

structure Chunk (α : Type) where
  elements : List α
  /-- There is no way to further split this chunk. -/
  final : Bool
deriving DecidableEq, Repr

/-- The counter of predicate runs, with the slices the predicate was called on, last one first. -/
structure Runs (α : Type) where
  predRuns : ℕ
  calls : List (List α)
deriving DecidableEq, Repr

structure SliceCtx (α : Type) where
  chunks : List (Chunk α)
  runs : Runs α
deriving DecidableEq, Repr

inductive SliceError (ε : Type)
  | tooManyChunks
  | pred (err : ε)
deriving DecidableEq, Repr

/-- The elements of some chunks in order, `mergeChunks`. -/
def mergeChunks (chunks : List (Chunk α)) : List α := chunks.flatMap Chunk.elements

def SliceCtx.elements (ctx : SliceCtx α) : List α := mergeChunks ctx.chunks

/-! ## Splitting -/

/-- The loop of `splitChunk`, with as many rounds as there are elements at most. -/
def cutEvery (size : ℕ) : ℕ → List α → List (List α)
  | 0, _ => []
  | _ + 1, [] => []
  | fuel + 1, x :: xs => (x :: xs).take size :: cutEvery size fuel ((x :: xs).drop size)

def splitChunk (chunk : List α) (parts : ℕ) : List (List α) :=
  let chunkSize := (chunk.length + parts - 1) / parts
  cutEvery (if chunkSize = 0 then 1 else chunkSize) chunk.length chunk

section Search

variable (cfg : Config α ε)

/-- The limit on predicate runs is reached. -/
def Runs.limitHit (runs : Runs α) : Prop := 0 < cfg.maxSteps ∧ cfg.maxSteps ≤ runs.predRuns

instance (runs : Runs α) : Decidable (runs.limitHit cfg) := by
  unfold Runs.limitHit
  infer_instance

def initialSplit (size : ℕ) : ℕ :=
  if 0 < cfg.maxSteps ∧ cfg.log2Exceeds size cfg.maxSteps then cfg.maxSteps.toNat else 3

/-- Does the predicate hold for the candidate? Once the limit is reached, pretend it does not. -/
def predRun (runs : Runs α) (candidate : List α) : Except ε (Bool × Runs α) :=
  if runs.limitHit cfg then .ok (false, runs)
  else do
    let ret ← cfg.pred candidate
    return (ret, ⟨runs.predRuns + 1, candidate :: runs.calls⟩)

/-- The loop of `splitChunks` over the parts of one chunk. `newChunks` are the chunks kept so far,
`after` those that follow. The last part is not tested if one of the parts must be needed and no
other was. -/
def testParts (someNeeded : Bool) (after : List (Chunk α)) :
    List (List α) → Bool → List (Chunk α) → Runs α → Except ε (List (Chunk α) × Runs α)
  | [], _, newChunks, runs => .ok (newChunks, runs)
  | part :: parts, foundNeeded, newChunks, runs =>
    if parts.length ≠ 0 ∨ foundNeeded ∨ ¬ someNeeded then do
      let (ret, runs) ←
        predRun cfg runs (mergeChunks newChunks ++ parts.flatten ++ mergeChunks after)
      if ret then testParts someNeeded after parts foundNeeded newChunks runs
      else testParts someNeeded after parts true (newChunks ++ [⟨part, false⟩]) runs
    else testParts someNeeded after parts true (newChunks ++ [⟨part, false⟩]) runs

/-- The loop of `splitChunks` over the chunks. -/
def splitLoop (someNeeded : Bool) (splitInto : ℕ) :
    List (Chunk α) → List (Chunk α) → Runs α → Except ε (List (Chunk α) × Runs α)
  | [], newChunks, runs => .ok (newChunks, runs)
  | chunk :: after, newChunks, runs =>
    if chunk.final then splitLoop someNeeded splitInto after (newChunks ++ [chunk]) runs
    else
      let parts := splitChunk chunk.elements splitInto
      if parts.length = 1 ∧ someNeeded then
        splitLoop someNeeded splitInto after (newChunks ++ [{ chunk with final := true }]) runs
      else do
        let (newChunks, runs) ← testParts cfg someNeeded after parts false newChunks runs
        splitLoop someNeeded splitInto after newChunks runs

/-- The number of parts, in two unless it is the first iteration. -/
def splitInto (someNeeded : Bool) (chunks : List (Chunk α)) : ℕ :=
  match chunks, someNeeded with
  | [chunk], false => initialSplit cfg chunk.elements.length
  | _, _ => 2

def splitChunks (someNeeded : Bool) (ctx : SliceCtx α) : Except ε (SliceCtx α) := do
  let (chunks, runs) ←
    splitLoop cfg someNeeded (splitInto cfg someNeeded ctx.chunks) ctx.chunks [] ctx.runs
  return ⟨chunks, runs⟩

/-- The search is over once every chunk is final, or the limit is reached. -/
def SliceCtx.done (ctx : SliceCtx α) : Prop :=
  ctx.runs.limitHit cfg ∨ ∀ chunk ∈ ctx.chunks, chunk.final = true

instance (ctx : SliceCtx α) : Decidable (ctx.done cfg) := by
  unfold SliceCtx.done
  infer_instance

def SliceCtx.tooManyChunks (ctx : SliceCtx α) : Prop :=
  0 < cfg.maxChunks ∧ cfg.maxChunks < ctx.chunks.length

instance (ctx : SliceCtx α) : Decidable (ctx.tooManyChunks cfg) := by
  unfold SliceCtx.tooManyChunks
  infer_instance

/-- The loop of `bisect`, for at most the given number of rounds; the last context comes with
`ErrTooManyChunks` if the loop ended with it. -/
def bisectLoop : ℕ → SliceCtx α → Option (Except ε (SliceCtx α × Option (SliceError ε)))
  | 0, _ => none
  | fuel + 1, ctx =>
    if ctx.done cfg then some (.ok (ctx, none))
    else if ctx.tooManyChunks cfg then some (.ok (ctx, some .tooManyChunks))
    else
      match splitChunks cfg true ctx with
      | .error err => some (.error err)
      | .ok ctx => bisectLoop fuel ctx

/-- The search on a slice. More elements need more rounds. -/
def bisect (slice : List α) : Option (Except ε (SliceCtx α × Option (SliceError ε))) :=
  match splitChunks cfg false ⟨[⟨slice, false⟩], ⟨0, []⟩⟩ with
  | .error err => some (.error err)
  | .ok ctx => bisectLoop cfg (slice.length + 1) ctx

/-- What `Slice` returns: the elements and the error. -/
def slice (elems : List α) : Option (List α × Option (SliceError ε)) :=
  match bisect cfg elems with
  | none => none
  | some (.error err) => some ([], some (.pred err))
  | some (.ok (ctx, err)) => some (ctx.elements, err)

/-! ## Fixed elements -/

/-- The loop that merges two lists of positions, the smaller position first; it takes one position
in every round. -/
def mergeLoop : ℕ → List ℕ → List ℕ → List ℕ
  | 0, _, _ => []
  | _ + 1, [], [] => []
  | n + 1, i :: idx, [] => i :: mergeLoop n idx []
  | n + 1, [], j :: fixedIdx => j :: mergeLoop n [] fixedIdx
  | n + 1, i :: idx, j :: fixedIdx =>
    if i < j then i :: mergeLoop n idx (j :: fixedIdx) else j :: mergeLoop n (i :: idx) fixedIdx

def mergeIdx (idx fixedIdx : List ℕ) : List ℕ :=
  mergeLoop (idx.length + fixedIdx.length) idx fixedIdx

section Fixed

variable (elems : List α) (fixed : α → Bool)

def freeIdx : List ℕ := (elems.zipIdx.filter fun e => !fixed e.1).map Prod.snd

def fixedIdx : List ℕ := (elems.zipIdx.filter fun e => fixed e.1).map Prod.snd

/-- The elements at the given positions and the fixed ones. -/
def convert (idx : List ℕ) : List α :=
  (mergeIdx idx (fixedIdx elems fixed)).flatMap fun i => elems[i]?.toList

/-- The configuration for the positions of the elements that are not fixed. -/
def fixedConfig : Config ℕ ε where
  pred idx := cfg.pred (convert elems fixed idx)
  maxSteps := cfg.maxSteps
  maxChunks := cfg.maxChunks
  log2Exceeds := cfg.log2Exceeds

def sliceWithFixed : Option (List α × Option (SliceError ε)) :=
  if (freeIdx elems fixed).length = 0 then some (elems, none)
  else
    match slice (fixedConfig cfg elems fixed) (freeIdx elems fixed) with
    | none => none
    | some (_, some err) => some ([], some err)
    | some (result, none) => some (convert elems fixed result, none)

end Fixed

end Search

end KConfuzz.Bisect
