import KConfuzz.Prog.Minimize

/-!
# How long arrays are (`prog/rand.go`, `prog/mutation.go`, `prog/minimization.go`)

The number of elements of an array is chosen by `ArrayType.generate`, `ArrayType.mutate` and
`ArrayType.minimize`. The random numbers are a list here, and a computation that needs more of
them stops; the generator of the elements, the minimizers of the elements and `assignSizesCall`
are parameters.
-/

namespace KConfuzz

/-! ## Array types -/

/-- What `leafType` can tell about a type. -/
inductive ElemType where
  | ptr (elem : ElemType)
  | array (elem : ElemType)
  /-- A struct or a union. -/
  | named (name : String)
  | other
deriving DecidableEq, Repr

inductive ArrayKind where
  | arrayRandLen
  | arrayRangeLen
deriving DecidableEq, Repr

/-- An `ArrayType` with the fields that say how long its arrays are. -/
structure ArrayDesc extends ArrayType where
  elem : ElemType
  kind : ArrayKind
  rangeBegin : UInt64
  rangeEnd : UInt64
deriving DecidableEq, Repr

/-- The lengths that the type declares. -/
def ArrayDesc.InRange (t : ArrayDesc) (n : ℕ) : Prop :=
  t.rangeBegin.toNat ≤ n ∧ n ≤ t.rangeEnd.toNat

instance (t : ArrayDesc) (n : ℕ) : Decidable (t.InRange n) :=
  inferInstanceAs (Decidable (_ ∧ _))

/-- A `GroupArg` of an array type. -/
structure GroupArg where
  typ : ArrayDesc
  dir : Dir
  inner : List Arg

/-! ## Random numbers -/

/-- Why there is no result. -/
inductive Stop where
  | panic (msg : String)
  | noMoreNumbers
deriving DecidableEq, Repr

/-- `randGen` together with the `state` of the program. -/
structure RandGen (σ : Type) where
  numbers : List ℕ
  recDepth : String → ℕ
  inGenerateResource : Bool
  state : σ
  heap : Heap

abbrev Gen (σ : Type) := StateT (RandGen σ) (Except Stop)

variable {σ : Type}

namespace RandGen

def intn (n : ℕ) : Gen σ ℕ := fun r =>
  if n = 0 then .error (.panic "invalid argument to Intn")
  else
    match r.numbers with
    | [] => .error .noMoreNumbers
    | x :: numbers => .ok (x % n, { r with numbers })

def oneOf (n : ℕ) : Gen σ Bool := do
  return (← intn n) == 0

def bin : Gen σ Bool := oneOf 2

def nOutOf (n outOf : ℕ) : Gen σ Bool := do
  if n = 0 ∨ outOf ≤ n then throw (.panic "bad probability")
  return decide ((← intn outOf) < n)

/-- The argument of `Intn` is an `int`, which may be negative. -/
def randRange (rangeBegin rangeEnd : UInt64) : Gen σ UInt64 := do
  let n := (rangeEnd - rangeBegin + 1).toNat
  if 2 ^ 63 ≤ n then throw (.panic "invalid argument to Intn")
  return rangeBegin + UInt64.ofNat (← intn n)

def maxArrayLen : ℕ := 10

/-- `biasedRand` gives any of the numbers below its first argument, some of them more often. -/
def biasedRand (n : ℕ) : Gen σ ℕ := intn n

def randArrayLen : Gen σ UInt64 := do
  let n ← biasedRand (maxArrayLen + 1)
  return UInt64.ofNat ((maxArrayLen - n + 1) % (maxArrayLen + 1))

/-! ## Recursion limits -/

/-- Unwraps pointers and arrays to find the underlying named struct or union. -/
def leafType : ElemType → Option String
  | .ptr elem | .array elem => leafType elem
  | .named name => some name
  | .other => none

def arrayRecursionLimit : ℕ := 2

/-- The limit for the type is reached. -/
def pruned (r : RandGen σ) (typ : ElemType) (limit : ℕ) : Bool :=
  (leafType typ).any fun lt => decide (limit ≤ r.recDepth lt)

/-- Changes how deep in a type the generator is. -/
def changeDepth (r : RandGen σ) (typ : ElemType) (f : ℕ → ℕ) : RandGen σ :=
  match leafType typ with
  | none => r
  | some lt => { r with recDepth := fun x => if x = lt then f (r.recDepth x) else r.recDepth x }

def pruneRecursion (typ : ElemType) (limit : ℕ) : Gen σ Bool := do
  let r ← get
  if r.pruned typ limit then return false
  set (r.changeDepth typ (· + 1))
  return true

/-- What `pruneRecursion` returns to be called at the end. -/
def release (typ : ElemType) : Gen σ Unit := do
  set ((← get).changeDepth typ (· - 1))

/-- `removeArg` for a list of arguments. -/
def removeArgs (args : List Arg) : Gen σ Unit := fun r =>
  match args.foldlM removeArg r.heap with
  | .ok heap => .ok ((), { r with heap })
  | .error msg => .error (.panic msg)

end RandGen

open RandGen

/-- The rest of the generator. -/
structure GenEnv (σ : Type) where
  generateArg : ElemType → Dir → Gen σ (Arg × List Call)
  analyze : σ → Call → σ

/-! ## Generation -/

/-- Generates `n` elements. -/
def generateElems (env : GenEnv σ) (elem : ElemType) (dir : Dir) :
    ℕ → Gen σ (List Arg × List Call)
  | 0 => return ([], [])
  | n + 1 => do
    let (arg1, calls1) ← env.generateArg elem dir
    let (inner, calls) ← generateElems env elem dir n
    return (arg1 :: inner, calls1 ++ calls)

/-- The number of elements of a new array. -/
def ArrayDesc.randCount (t : ArrayDesc) : Gen σ UInt64 :=
  match t.kind with
  | .arrayRandLen => randArrayLen
  | .arrayRangeLen => randRange t.rangeBegin t.rangeEnd

def ArrayDesc.generate (env : GenEnv σ) (t : ArrayDesc) (dir : Dir) :
    Gen σ (GroupArg × List Call) := do
  if ← pruneRecursion t.elem arrayRecursionLimit then
    let count ← t.randCount
    -- The resource we are trying to generate may be in the array elements, so create at least 1.
    let count := if (← get).inGenerateResource ∧ count = 0 then 1 else count
    let (inner, calls) ← generateElems env t.elem dir count.toNat
    release t.elem
    return ({ typ := t, dir, inner }, calls)
  else
    return ({ typ := t, dir, inner := [] }, [])

/-! ## Mutation -/

/-- `a.Inner[i], a.Inner[j] = a.Inner[j], a.Inner[i]` -/
def swapElems (inner : List Arg) (i j : ℕ) : List Arg :=
  match inner[i]?, inner[j]? with
  | some x, some y => (inner.set i y).set j x
  | _, _ => inner

/-- Swaps elements for as long as the random numbers say so; each round takes at least one of
the numbers, so `fuel` is as good as the number of them. -/
def swapRandomly : ℕ → List Arg → Gen σ (List Arg)
  | 0, _ => throw .noMoreNumbers
  | fuel + 1, inner => do
    if ← nOutOf 2 3 then
      let i ← intn inner.length
      let j ← intn inner.length
      swapRandomly fuel (swapElems inner i j)
    else return inner

/-- `for count == uint64(len(a.Inner)) { count = next() }` -/
def countOtherThan (len : UInt64) (next : Gen σ UInt64) : ℕ → UInt64 → Gen σ UInt64
  | 0, _ => throw .noMoreNumbers
  | fuel + 1, count => do
    if count = len then countOtherThan len next fuel (← next) else return count

/-- `for r.bin() { count++ }` -/
def countUp : ℕ → UInt64 → Gen σ UInt64
  | 0, _ => throw .noMoreNumbers
  | fuel + 1, count => do
    if ← bin then countUp fuel (count + 1) else return count

/-- The new number of elements. In both loops that look for a number other than the present one,
`count` is 0 at first. -/
def ArrayDesc.newCount (t : ArrayDesc) (len : UInt64) : Gen σ UInt64 := do
  let fuel := (← get).numbers.length + 1
  match t.kind with
  | .arrayRandLen =>
    if ← bin then countUp fuel len else countOtherThan len randArrayLen fuel 0
  | .arrayRangeLen =>
    if t.rangeBegin = t.rangeEnd then throw (.panic "trying to mutate fixed length array")
    countOtherThan len (randRange t.rangeBegin t.rangeEnd) fuel 0

/-- `s.analyze` for a list of calls. -/
def analyzeCalls (env : GenEnv σ) (calls : List Call) : Gen σ Unit :=
  modify fun r => { r with state := calls.foldl env.analyze r.state }

/-- Appends `n` new elements. -/
def appendElems (env : GenEnv σ) (elem : ElemType) (dir : Dir) :
    ℕ → List Arg → List Call → Gen σ (List Arg × List Call)
  | 0, inner, calls => return (inner, calls)
  | n + 1, inner, calls => do
    let (newArg, newCalls) ← env.generateArg elem dir
    analyzeCalls env newCalls
    appendElems env elem dir n (inner ++ [newArg]) (calls ++ newCalls)

/-- Appends elements or cuts some off until there are `count` of them. -/
def resize (env : GenEnv σ) (t : ArrayDesc) (dir : Dir) (inner : List Arg) (count : ℕ) :
    Gen σ (List Arg × List Call) := do
  if inner.length < count then
    appendElems env t.elem dir (count - inner.length) inner []
  else if count < inner.length then
    removeArgs (inner.drop count)
    return (inner.take count, [])
  else return (inner, [])

/-- The swaps that come first. -/
def swapFirst (inner : List Arg) : Gen σ (List Arg) := do
  if 1 < inner.length then
    if ← oneOf 5 then
      swapRandomly ((← get).numbers.length + 1) inner
    else return inner
  else return inner

def ArrayDesc.mutate (env : GenEnv σ) (t : ArrayDesc) (a : GroupArg) :
    Gen σ (GroupArg × List Call) := do
  let inner ← swapFirst a.inner
  let count ← t.newCount (UInt64.ofNat inner.length)
  let (inner, calls) ← resize env t a.dir inner count.toNat
  return ({ a with inner }, calls)

/-! ## Minimization -/

/-- An array of the program that is minimized, the paths that were tried, and the results of the
program. -/
structure MinArray where
  inner : List Arg
  triedPaths : List String
  heap : Heap

/-- The rest of the minimizer. `doElem` is `ctx.do` for an element: it may change the element, and
says whether to start anew; `assignSizes` is `assignSizesCall`, which changes the sizes in the
elements. -/
structure ElemMinimizer where
  doElem : MinArray → Arg → String → Except String (Bool × Arg × List String × Heap)
  assignSizes : List Arg → Arg → Arg

/-- The path of an element, and of the attempt to remove it. -/
def elemPath (path : String) (i : ℕ) : String := path ++ "-" ++ toString i

/-- Whether `minimize` may remove one of `len` elements. -/
def ArrayDesc.mayRemove (t : ArrayDesc) (len : ℕ) : Bool :=
  match t.kind with
  | .arrayRandLen => true
  | .arrayRangeLen => decide (t.rangeBegin.toNat < len)

/-- The loop over the elements below `i`, the last first. -/
def minimizeElems (env : ElemMinimizer) (t : ArrayDesc) (mode : MinimizeMode) (path : String) :
    ℕ → MinArray → Except String (Bool × MinArray)
  | 0, s => return (false, s)
  | i + 1, s =>
    match s.inner[i]? with
    | none => throw "index out of range"
    | some elem => do
      if mode ≠ .minimizeCrash ∧ elemPath path i ∉ s.triedPaths ∧ t.mayRemove s.inner.length then
        let heap ← removeArg s.heap elem
        let inner := s.inner.eraseIdx i
        return (true, { inner := inner.map (env.assignSizes inner)
                        triedPaths := elemPath path i :: s.triedPaths, heap })
      else
        let (again, elem, triedPaths, heap) ← env.doElem s elem (elemPath path i)
        let s := { inner := s.inner.set i elem, triedPaths, heap }
        if again then return (true, s) else minimizeElems env t mode path i s

/-- Whether to start anew, and what became of the array. -/
def ArrayDesc.minimize (env : ElemMinimizer) (t : ArrayDesc) (mode : MinimizeMode)
    (path : String) (s : MinArray) : Except String (Bool × MinArray) := do
  let allPath := path ++ "-all"
  if 3 ≤ s.inner.length ∧ t.rangeBegin = 0 ∧ allPath ∉ s.triedPaths then
    let heap ← s.inner.foldlM removeArg s.heap
    return (true, { inner := [], triedPaths := allPath :: s.triedPaths, heap })
  else minimizeElems env t mode path s.inner.length s

/-- The array in the programs of a minimization: as the predicate gets to see it in each round,
and at the end. An answer of the predicate says whether the changed program is committed; the next
round starts from a copy of the program that was committed last. -/
def ArrayDesc.minimizeRounds (env : ElemMinimizer) (t : ArrayDesc) (mode : MinimizeMode)
    (path : String) : List Bool → MinArray → Except String (List (List Arg))
  | [], s => return [s.inner]
  | ok :: answers, s => do
    let (again, s') ← t.minimize env mode path s
    if again then
      let s0 := if ok then s' else { s with triedPaths := s'.triedPaths }
      return s'.inner :: (← t.minimizeRounds env mode path answers s0)
    else return [s.inner]

end KConfuzz
