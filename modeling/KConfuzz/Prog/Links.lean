import KConfuzz.Prog.Validation

/-!
# Changing the links of a program (`prog/prog.go`)

Results are objects that refer to each other in both directions: `Res` of a user and `uses` of
the referent. The functions that take arguments out of a program or replace them go through
these links and change objects elsewhere in the program. Here the objects are on a `Heap`, and an
argument tree tells which of them it contains.

`ResultArg.unlink` and `Prog.removeCall` say at once what becomes of a program when a call is
removed.
-/

namespace KConfuzz

open Lib.ExceptFold

/-! ## Results of a tree -/

mutual

/-- Replaces the results in an argument tree. -/
def Arg.mapResults (f : ResultArg → ResultArg) : Arg → Arg
  | .result r => .result (f r)
  | .group id dir typ inner => .group id dir typ (Arg.mapResultsList f inner)
  | .pointer id dir typ address vmaSize res =>
    .pointer id dir typ address vmaSize (Arg.mapResultsOption f res)
  | .union id dir typ option index => .union id dir typ (option.mapResults f) index
  | arg@(.const ..) | arg@(.data ..) => arg

def Arg.mapResultsList (f : ResultArg → ResultArg) : List Arg → List Arg
  | [] => []
  | arg :: args => arg.mapResults f :: Arg.mapResultsList f args

def Arg.mapResultsOption (f : ResultArg → ResultArg) : Option Arg → Option Arg
  | none => none
  | some res => some (res.mapResults f)

end

/-- The identities of the results in a tree, in the order of a visit. -/
def Arg.resultIds (arg : Arg) : List ArgId := (arg.subtree.filterMap Arg.result?).map ResultArg.id

def Call.resultIds (c : Call) : List ArgId := (c.nodes.filterMap Arg.result?).map ResultArg.id

def Prog.resultIds (p : Prog) : List ArgId := p.calls.flatMap Call.resultIds

/-- The results of a list of calls. -/
def results (calls : List Call) : List ResultArg :=
  (calls.flatMap Call.nodes).filterMap Arg.result?

/-- Replaces the results of a call. -/
def Call.mapResults (f : ResultArg → ResultArg) (c : Call) : Call :=
  { c with args := c.args.map (Arg.mapResults f), ret := c.ret.map f }

/-! ## Removing a call -/

/-- What `removeArg` on the results `removed` makes of another result: one that used them becomes
the default of its type, and they are no longer among its uses. -/
def ResultArg.unlink (removed : List ResultArg) (r : ResultArg) : ResultArg :=
  let uses := r.uses.filter fun u => !removed.any fun a => a.id == u && a.res == some r.id
  if removed.any (·.uses.contains r.id) then
    { r with res := none, opDiv := 0, opAdd := 0, val := r.typ.default, uses }
  else { r with uses }

namespace Prog

/-- `RemoveCall` -/
def removeCall (p : Prog) (idx : ℕ) : Prog :=
  let removed := (p.calls[idx]?.elim [] Call.nodes).filterMap Arg.result?
  let unlink (c : Call) : Call :=
    { c with
      args := c.args.map (Arg.mapResults (ResultArg.unlink removed))
      ret := c.ret.map (ResultArg.unlink removed) }
  { target := p.target
    calls := (p.calls.eraseIdx idx).map unlink
    callMeta_mem := by
      refine List.forall_mem_map.mpr fun c' hc' => ?_
      exact p.callMeta_mem c' (List.mem_of_mem_eraseIdx hc') }

/-- Changes the calls, but not which calls they are. -/
def mapCalls (p : Prog) (f : ℕ → Call → Call) (hf : ∀ i c, (f i c).callMeta = c.callMeta) : Prog :=
  { target := p.target
    calls := p.calls.mapIdx f
    callMeta_mem := by
      intro c hc
      obtain ⟨i, hi, rfl⟩ := List.mem_mapIdx.mp hc
      rw [hf]
      exact p.callMeta_mem _ (List.getElem_mem hi) }

end Prog

/-! ## Results as objects -/

/-- The result objects by their identity. -/
abbrev Heap := ArgId → Option ResultArg

namespace Heap

/-- Changes an object in place. -/
def modify (h : Heap) (id : ArgId) (f : ResultArg → ResultArg) : Heap :=
  fun i => if i = id then (h i).map f else h i

/-- `delete(r.uses, u)` -/
def deleteUse (h : Heap) (r u : ArgId) : Heap :=
  h.modify r fun x => { x with uses := x.uses.filter (· ≠ u) }

/-- `r.uses[u] = true` -/
def addUse (h : Heap) (r u : ArgId) : Heap :=
  h.modify r fun x => { x with uses := x.uses.insert u }

/-- The state of the object that a node of a tree stands for. -/
def read (h : Heap) (r : ResultArg) : ResultArg := (h r.id).getD r

end Heap

/-- The objects of a program. -/
def Prog.heap (p : Prog) : Heap := findResult (p.calls.flatMap Call.nodes)

/-- `t.DefaultArg(dir)` for the type and the direction of a result, as a new object. -/
def ResultArg.defaultArg (r : ResultArg) : ResultArg :=
  { r with res := none, opDiv := 0, opAdd := 0, val := r.typ.default, uses := [] }

/-- Removes the link from `a.Res` to `arg`. -/
def Heap.dropLink (h : Heap) (arg : ArgId) : Heap :=
  match (h arg).bind ResultArg.res with
  | some res => h.deleteUse res arg
  | none => h

/-- Makes the link to the contents of `arg1` point to `arg` instead. -/
def Heap.moveLink (h : Heap) (arg : ArgId) (arg1 : ResultArg) : Heap :=
  match arg1.res with
  | some res => (h.deleteUse res arg1.id).addUse res arg
  | none => h

/-- `replaceResultArg` copies all fields except for the list of args that use `arg`; `arg1` is
another object. -/
def replaceResultArg (h : Heap) (arg : ArgId) (arg1 : ResultArg) : Heap :=
  ((h.dropLink arg).modify arg fun a => { arg1 with id := a.id, uses := a.uses }).moveLink arg arg1

/-- The user of a removed result becomes the default of its type. -/
def replaceByDefault (h : Heap) (arg1 : ArgId) : Heap :=
  match h arg1 with
  | some a => replaceResultArg h arg1 a.defaultArg
  | none => h

/-- `delete(a.Res.uses, a)`, which has to be there. -/
def unlinkRes (h : Heap) (a : ResultArg) : Except String Heap :=
  match a.res with
  | none => .ok h
  | some res => do
    failIf (¬ ((h res).any fun r => r.uses.contains a.id)) "broken tree"
    return h.deleteUse res a.id

/-- What `removeArg` does at a result. The loop over `uses` deletes no entry but the one it is
at. -/
def removeResult (h : Heap) (id : ArgId) : Except String Heap :=
  match h id with
  | none => .error "invalid memory address or nil pointer dereference"
  | some a => do
    let h ← unlinkRes h a
    return ((h id).elim [] ResultArg.uses).foldl replaceByDefault h

/-- `removeArg` removes all references to and from `arg0`. -/
def removeArg (h : Heap) (arg0 : Arg) : Except String Heap :=
  arg0.resultIds.foldlM removeResult h

/-- `RemoveCall`, link by link. -/
def Prog.removeCallLinks (p : Prog) (idx : ℕ) : Except String Prog :=
  match p.calls[idx]? with
  | none => .error "index out of range"
  | some c => do
    let h ← c.args.foldlM removeArg p.heap
    let h ← (c.ret.map Arg.result).toList.foldlM removeArg h
    return {
      target := p.target
      calls := (p.calls.eraseIdx idx).map (Call.mapResults h.read)
      callMeta_mem := by
        refine List.forall_mem_map.mpr fun c' hc' => ?_
        exact p.callMeta_mem c' (List.mem_of_mem_eraseIdx hc') }

/-- `insertBefore`; `idx` is the place of the call, or the number of calls when it is not in the
program. -/
def Prog.insertBefore (p : Prog) (idx : ℕ) (calls : List Call)
    (hcalls : ∀ c ∈ calls, c.callMeta ∈ p.target.syscalls) : Prog where
  target := p.target
  calls := p.calls.take idx ++ calls ++ p.calls.drop idx
  callMeta_mem := by
    intro c hc
    simp only [List.mem_append] at hc
    rcases hc with (hc | hc) | hc
    · exact p.callMeta_mem c (List.mem_of_mem_take hc)
    · exact hcalls c hc
    · exact p.callMeta_mem c (List.mem_of_mem_drop hc)

mutual

/-- `replaceArg`: the heap afterwards, and the tree that stands where `arg` stood. The object of
an argument stays and gets new contents. -/
def replaceArg (h : Heap) (arg arg1 : Arg) : Except String (Heap × Arg) :=
  if arg.id = arg1.id then .error "replacing an argument with itself"
  else match arg, arg1 with
  | .const id .., .const _ dir typ val => .ok (h, .const id dir typ val)
  | .result a, .result a1 =>
    match h a1.id with
    | some arg1 => .ok (replaceResultArg h a.id arg1, .result a)
    | none => .error "invalid memory address or nil pointer dereference"
  | .pointer id .., .pointer _ dir typ address vmaSize res =>
    .ok (h, .pointer id dir typ address vmaSize res)
  | .union id _ _ option _, .union _ dir typ option1 index => do
    let h ← removeArg h option
    return (h, .union id dir typ option1 index)
  | .data id .., .data _ dir typ data size => .ok (h, .data id dir typ data size)
  | .group id _ typ inner, .group _ dir1 typ1 inner1 => do
    failIf (typ.isStruct ∧ inner.length ≠ inner1.length) "replaceArg: group fields don't match"
    let (h, inner) ← replaceInner h inner inner1
    return (h, .group id dir1 typ1 inner)
  | _, _ => .error "interface conversion"

def replaceInner (h : Heap) : List Arg → List Arg → Except String (Heap × List Arg)
  -- Replace min(|a|, |a1|) arguments.
  | arg :: inner, arg1 :: inner1 => do
    let (h, arg) ← replaceArg h arg arg1
    let (h, inner) ← replaceInner h inner inner1
    return (h, arg :: inner)
  -- Remove extra arguments of a.
  | inner, [] => do
    let h ← inner.reverse.foldlM removeArg h
    return (h, [])
  -- Add extra arguments to a.
  | [], inner1 => .ok (h, inner1)

end

end KConfuzz
