import KConfuzz.Prog.Links

/-!
# Cloning programs and provoking races (`prog/clone.go`, `prog/collide.go`)

`clone` makes new objects and enters them into the `uses` sets of what they refer to. The two
sides of it are kept apart here: `Arg.copy` is the new tree, and `cloneLink` follows the links in
the order in which the results are cloned.

A program is transformed with random numbers. What `rand.Intn` returns for a call is a parameter,
by the index of the call, and `perm` is what `rand.Perm` returns. A function that can panic is in
`Except`; one that can also return an error has it in a second `Except` inside.
-/

namespace KConfuzz

open Lib.ExceptFold

/-! ## Cloning -/

mutual

/-- A copy of a tree: new identities, and new contents for the results. -/
def Arg.copy (fresh : ArgId → ArgId) (f : ResultArg → ResultArg) : Arg → Arg
  | .const id dir typ val => .const (fresh id) dir typ val
  | .pointer id dir typ address vmaSize res =>
    .pointer (fresh id) dir typ address vmaSize (Arg.copyOption fresh f res)
  | .data id dir typ bytes size => .data (fresh id) dir typ bytes size
  | .group id dir typ inner => .group (fresh id) dir typ (Arg.copyList fresh f inner)
  | .union id dir typ option index => .union (fresh id) dir typ (option.copy fresh f) index
  | .result r => .result (f r)

def Arg.copyList (fresh : ArgId → ArgId) (f : ResultArg → ResultArg) : List Arg → List Arg
  | [] => []
  | arg :: args => arg.copy fresh f :: Arg.copyList fresh f args

def Arg.copyOption (fresh : ArgId → ArgId) (f : ResultArg → ResultArg) : Option Arg → Option Arg
  | none => none
  | some res => some (res.copy fresh f)

end

def Call.copy (fresh : ArgId → ArgId) (f : ResultArg → ResultArg) (c : Call) : Call :=
  { c with args := c.args.map (Arg.copy fresh f), ret := c.ret.map f }

/-- `newargs[res]`, or the result itself when there is no table. -/
def cloneRes (fresh : ArgId → ArgId) (remap : Bool) (res : ArgId) : ArgId :=
  if remap then fresh res else res

/-- The clone of a result; its uses are filled when its users are cloned. -/
def copyResult (fresh : ArgId → ArgId) (remap : Bool) (a : ResultArg) : ResultArg :=
  { a with id := fresh a.id, res := a.res.map (cloneRes fresh remap), uses := [] }

/-- `newargs` are the results that have a clone so far, and `links` the entries that were made in
sets of uses: the result that is used, and its new user. -/
structure CloneState where
  newargs : List ArgId
  links : List (ArgId × ArgId)

/-- `clone` at a result; `remap` tells whether there is a table of the clones. -/
def cloneLink (fresh : ArgId → ArgId) (remap : Bool) (st : CloneState) (a : ResultArg) :
    Except String CloneState := do
  failIf (remap = true ∧ ∃ res ∈ a.res, res ∉ st.newargs)
    "invalid memory address or nil pointer dereference"
  return {
    newargs := if remap then st.newargs ++ [a.id] else st.newargs
    links := st.links ++ a.res.toList.map fun res => (cloneRes fresh remap res, fresh a.id) }

/-- The results of a call in the order in which `cloneCall` gets to them. -/
def Call.cloneOrder (c : Call) : List ResultArg :=
  (c.retNodes ++ c.argNodes).filterMap Arg.result?

/-- The new users of results after `cloneCalls`. -/
def cloneLinks (fresh : ArgId → ArgId) (remap : Bool) (calls : List Call) :
    Except String (List (ArgId × ArgId)) := do
  let st ← (calls.flatMap Call.cloneOrder).foldlM (cloneLink fresh remap) ⟨[], []⟩
  return st.links

/-- `r.uses[a1] = true` for all new users of the result. -/
def ResultArg.addUses (links : List (ArgId × ArgId)) (r : ResultArg) : ResultArg :=
  { r with
    uses := links.foldl (fun uses link => if link.1 = r.id then uses.insert link.2 else uses) r.uses }

/-- A program with copies of calls. -/
def Prog.withCalls (p : Prog) (calls : List Call)
    (hcalls : ∀ c ∈ calls, ∃ c' ∈ p.calls, c'.callMeta = c.callMeta) : Prog where
  target := p.target
  calls := calls
  callMeta_mem := by
    intro c hc
    obtain ⟨c', hc', heq⟩ := hcalls c hc
    rw [← heq]
    exact p.callMeta_mem c' hc'

/-- `Clone`. The clone is a program of its own, so its arguments can have the identities of the
originals. -/
def Prog.clone (p : Prog) : Except String Prog := do
  let links ← cloneLinks id true p.calls
  return p.withCalls
    (p.calls.map fun c => (c.copy id (copyResult id true)).copy id (ResultArg.addUses links)) <| by
      refine List.forall_mem_map.mpr fun c' hc' => ?_
      exact ⟨c', hc', rfl⟩

/-- An identity that no argument of the program has, nor any above it. -/
def Prog.nextId (p : Prog) : ArgId :=
  ((p.calls.flatMap Call.nodes).map Arg.id).foldr max 0 + 1

/-- Identities for duplicates of calls of the program. -/
def Prog.fresh (p : Prog) (id : ArgId) : ArgId := p.nextId + id

/-! ## Duplicating calls -/

def maxCalls : ℕ := 40

def maxAsyncPerProg : ℕ := 24

def Call.setAsync (async : Bool) (c : Call) : Call :=
  { c with props := { c.props with async } }

def Call.setRerun (rerun : ℤ) (c : Call) : Call :=
  { c with props := { c.props with rerun } }

/-- `cloneCall(c, nil)` -/
def Prog.dupCall (p : Prog) (c : Call) : Call := c.copy p.fresh (copyResult p.fresh false)

def doubleExecCollide (origProg : Prog) : Except String (Except String Prog) :=
  if origProg.calls.length * 2 > maxCalls then
    .ok (.error "the prog is too big for the DoubleExecCollide transformation")
  else do
    let prog ← origProg.clone
    let links ← cloneLinks prog.fresh false prog.calls
    let dupCalls := (prog.calls.map prog.dupCall).mapIdx fun i c =>
      if i < maxAsyncPerProg then c.setAsync true else c
    return .ok (prog.withCalls
      (prog.calls.map (Call.copy id (ResultArg.addUses links)) ++ dupCalls) <| by
        intro c hc
        rw [List.mem_append] at hc
        rcases hc with hc | hc
        · obtain ⟨c', hc', rfl⟩ := List.mem_map.mp hc
          exact ⟨c', hc', rfl⟩
        · obtain ⟨i, hi, rfl⟩ := List.mem_mapIdx.mp hc
          rw [List.length_map] at hi
          refine ⟨prog.calls[i], List.getElem_mem hi, ?_⟩
          rw [List.getElem_map]
          split <;> rfl)

/-- How many calls `DupCallCollide` duplicates. -/
def dupInsert (n : ℕ) : ℕ := min (min (max (n / 3) 1) maxAsyncPerProg) (maxCalls - n)

/-- The calls with the duplicates in front of their originals. -/
def insertDups (p : Prog) (duplicate : List ℕ) (links : List (ArgId × ArgId)) : List Call :=
  p.calls.zipIdx.flatMap fun (c, i) =>
    if i ∈ duplicate then
      [(p.dupCall c).setAsync true, c.copy id (ResultArg.addUses links)]
    else [c.copy id (ResultArg.addUses links)]

def dupCallCollide (perm : List ℕ) (origProg : Prog) : Except String (Except String Prog) :=
  if origProg.calls.length < 2 then .ok (.error "the prog is too small for the transformation")
  else if dupInsert origProg.calls.length = 0 then .ok (.error "no calls could be duplicated")
  else do
    let duplicate := perm.take (dupInsert origProg.calls.length)
    let prog ← origProg.clone
    let links ← cloneLinks prog.fresh false
      ((prog.calls.zipIdx.filter (·.2 ∈ duplicate)).map Prod.fst)
    return .ok (prog.withCalls (insertDups prog duplicate links) <| by
        intro c hc
        obtain ⟨⟨c', i⟩, hc', hc⟩ := List.mem_flatMap.mp hc
        refine ⟨c', List.fst_mem_of_mem_zipIdx hc', ?_⟩
        dsimp only at hc
        split at hc
        · rcases List.mem_cons.mp hc with rfl | hc
          · rfl
          · obtain rfl := List.mem_singleton.mp hc
            rfl
        · obtain rfl := List.mem_singleton.mp hc
          rfl)

/-! ## Asynchronous calls -/

/-- The results of a call in the order of `ForeachArg`. -/
def Call.visitedResults (c : Call) : List ResultArg :=
  (foreachArg c).filterMap fun visit => visit.1.result?

/-- Some of the results of the call are in `unassigned`. -/
def producesUnassigned (unassigned : Option (List (Option ArgId))) (c : Call) : Bool :=
  c.visitedResults.any fun res => res.dir ≠ .dirIn && (unassigned.getD []).contains (some res.id)

/-- The results that a call uses; a constant gives the nil pointer. -/
def consumes (c : Call) : List (Option ArgId) :=
  (c.visitedResults.filter (·.dir ≠ .dirOut)).map ResultArg.res

/-- `for res := range consumes { unassigned[res] = true }`; there is no writing to a nil map. -/
def addUnassigned (unassigned : Option (List (Option ArgId))) (consumes : List (Option ArgId)) :
    Except String (Option (List (Option ArgId))) :=
  match unassigned with
  | some l => .ok (some (l ++ consumes))
  | none => if consumes = [] then .ok none else .error "assignment to entry in nil map"

/-- The loop of `AssignRandomAsync` over the calls from the last one on, each with its index, and
what becomes of their `Async`; `n` is the number of calls. -/
def assignAsyncLoop (intn3 : ℕ → Fin 3) (n : ℕ) :
    Option (List (Option ArgId)) → ℕ → List (Call × ℕ) → Except String (List Bool)
  | _, 0, calls => .ok (calls.map (·.1.props.async))
  | _, _ + 1, [] => .ok []
  | unassigned, leftAsync + 1, (call, i) :: calls =>
    -- Make async with a 66% chance (but never the last call).
    if !producesUnassigned unassigned call && i + 1 ≠ n && intn3 i ≠ 0 then do
      let unassigned ← addUnassigned unassigned (consumes call)
      let rest ← assignAsyncLoop intn3 n unassigned leftAsync calls
      return true :: rest
    else do
      let rest ← assignAsyncLoop intn3 n (some (consumes call)) (leftAsync + 1) calls
      return false :: rest

/-- `AssignRandomAsync` -/
def assignRandomAsync (intn3 : ℕ → Fin 3) (origProg : Prog) : Except String Prog := do
  let prog ← origProg.clone
  let flags ← assignAsyncLoop intn3 prog.calls.length none maxAsyncPerProg
    prog.calls.zipIdx.reverse
  return prog.mapCalls (fun i c => c.setAsync (flags.reverse.getD i c.props.async)) fun _ _ => rfl

/-! ## Calls that run again -/

def rerunSteps : Fin 2 → ℤ
  | 0 => 32
  | 1 => 64

/-- The loop of `AssignRandomRerun` from the `i`-th call on. -/
def assignRerunLoop (intn4 : ℕ → Fin 4) (intn2 : ℕ → Fin 2) : ℕ → List Call → List Call
  | i, call :: next :: calls =>
    if !call.props.async || intn4 i ≠ 0 then
      call :: assignRerunLoop intn4 intn2 (i + 1) (next :: calls)
    else
      let rerun := rerunSteps (intn2 i)
      call.setRerun rerun :: next.setRerun rerun :: assignRerunLoop intn4 intn2 (i + 2) calls
  | _, calls => calls

lemma forall₂_assignRerunLoop (intn4 : ℕ → Fin 4) (intn2 : ℕ → Fin 2) (i : ℕ) (calls : List Call) :
    List.Forall₂ (fun c c' => c' = { c with props := { c.props with rerun := c'.props.rerun } })
      calls (assignRerunLoop intn4 intn2 i calls) := by
  fun_induction assignRerunLoop intn4 intn2 i calls with
  | case1 i call next calls hskip ih => exact .cons rfl ih
  | case2 i call next calls htake rerun ih => exact .cons rfl (.cons rfl ih)
  | case3 i calls h =>
    rw [List.forall₂_same]
    intro c hc
    rfl

/-- `AssignRandomRerun` -/
def assignRandomRerun (intn4 : ℕ → Fin 4) (intn2 : ℕ → Fin 2) (prog : Prog) : Prog :=
  prog.withCalls (assignRerunLoop intn4 intn2 0 prog.calls) <| by
    intro c' hc'
    obtain ⟨c, hc, heq⟩ :=
      exists_mem_of_forall₂ (forall₂_assignRerunLoop intn4 intn2 0 prog.calls) hc'
    exact ⟨c, hc, by rw [heq]⟩

end KConfuzz
