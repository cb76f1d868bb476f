import Mathlib.Data.List.Nodup
import KConfuzz.Lib.ExceptFold
import KConfuzz.Prog.Args

/-!
# Validation of programs (`prog/validation.go`)

The checks of `validate` that are about the shape of argument trees and the links between
results: every argument stands in the tree once, a result refers to one visited before it, and
the two ends of a link agree. Checks against the descriptions of the calls (types, directions
below the top level, conditional fields, memory bounds) are left out: a program that passes the
full check passes this one.

`ValidOrder` says what a list of visited arguments is like when all of them passed.
-/

namespace KConfuzz

open Lib.ExceptFold List

/-! ## The checks -/

variable (target : Target) (visited : List Arg) {r : ResultArg}

/-- The visited result of the given identity. -/
def findResult (id : ArgId) : Option ResultArg :=
  (visited.filterMap Arg.result?).find? (·.id == id)

/-- The check on the result that a result refers to. -/
def validateLink (r : ResultArg) : Except String Unit :=
  match r.res with
  | none => .ok ()
  | some res =>
    match findResult visited res with
    | none => .error "result arg references out-of-tree result"
    | some target => failIf (r.id ∉ target.uses) "result arg has broken link"

/-- `ResultArg.validate`; `visited` are the arguments in the tree so far, this one included. -/
def validateResult (r : ResultArg) : Except String Unit := do
  failIf (r.dir = .dirOut ∧ r.val ≠ 0 ∧ r.val ≠ r.typ.default)
    "out resource arg has bad const value"
  validateLink visited r
  failIf (r.dir = .dirIn ∧ r.uses ≠ []) "result arg is DirIn, but is used"
  failIf (r.uses ≠ [] ∧ r.typ.typeSize > 8)
    "result arg is to be copied out, yet it's bigger than int64"

/-- `PointerArg.validate` -/
def validatePointer (dir : Dir) (typ : PointerType) (address vmaSize : UInt64) (res : Option Arg) :
    Except String Unit := do
  match typ with
  | .vma _ => failIf res.isSome "vma arg has data"
  | .ptr _ =>
    failIf (vmaSize ≠ 0) "pointer arg has nonzero size"
    failIf (dir = .dirOut) "pointer arg has output direction"
  failIf (isSpecial address vmaSize res.isSome ∧
    target.specialPointers.length ≤ (-address).toNat) "special ptr arg has bad value"

/-- The checks on an argument that its parts play no role in. -/
def validateKind : Arg → Except String Unit
  | .result r => validateResult visited r
  | .data _ dir _ data _ => failIf (dir = .dirOut ∧ data ≠ []) "output arg has data"
  | .group _ _ (.struct t) inner =>
    failIf (inner.length ≠ t.fields.length) "struct arg has wrong number of fields"
  | .pointer _ dir typ address vmaSize res => validatePointer target dir typ address vmaSize res
  | _ => .ok ()

/-- The visit of one argument, its parts aside. -/
def validateNode (arg : Arg) :
    Except String (List Arg) := do
  failIf (∃ other ∈ visited, other.id = arg.id) "arg is referenced several times in the tree"
  validateKind target (visited ++ [arg]) arg
  return visited ++ [arg]

/-- `validateArg`; `dir` is the direction that is expected of the argument. -/
def validateArg (dir : Dir) (visited : List Arg) (arg : Arg) :
    Except String (List Arg) := do
  failIf (arg.dir ≠ dir) "arg has wrong dir"
  arg.subtree.foldlM (validateNode target) visited

def validateRet :
    Option ResultArg → Except String (List Arg)
  | none => .ok visited
  | some r => do
    failIf (r.res ≠ none ∨ r.val ≠ 0 ∨ r.opDiv ≠ 0 ∨ r.opAdd ≠ 0) "return value is not empty"
    validateArg target .dirOut visited (.result r)

def validateCall (c : Call) :
    Except String (List Arg) := do
  failIf (c.props.rerun > 0 ∧ c.props.failNth > 0) "rerun > 0 && fail_nth > 0"
  let visited ← c.args.foldlM (validateArg target .dirIn) visited
  validateRet target visited c.ret

/-- Every use of a visited result is a visited result that refers to it. -/
def usesInTree : Bool :=
  (visited.filterMap Arg.result?).all fun r =>
    r.uses.all fun u =>
      (visited.filterMap Arg.result?).any fun user => user.id == u && user.res == some r.id

def Prog.validate (p : Prog) : Except String Unit := do
  let visited ← p.calls.foldlM (validateCall p.target) []
  failIf (usesInTree visited = false) "use refers to an out-of-tree arg"

/-! ## What they guarantee -/

/-- A list of visited arguments in which each one passed: no argument stands in it twice, and a
result refers to one that was visited and knows about it. -/
structure ValidOrder (l : List Arg) : Prop where
  nodup : (l.map Arg.id).Nodup
  link : ∀ pre r post, l = pre ++ .result r :: post → ∀ res, r.res = some res →
    ∃ target, .result target ∈ pre ++ [.result r] ∧ target.id = res ∧ r.id ∈ target.uses

lemma result?_eq_some_iff {arg : Arg} : arg.result? = some r ↔ arg = .result r := by
  cases arg <;> simp [Arg.result?]

lemma mem_filterMap_result? {l : List Arg} : r ∈ l.filterMap Arg.result? ↔ .result r ∈ l := by
  simp only [mem_filterMap, result?_eq_some_iff, exists_eq_right]

lemma findResult_spec {visited : List Arg} {id : ArgId} (h : findResult visited id = some r) :
    .result r ∈ visited ∧ r.id = id := by
  refine ⟨mem_filterMap_result?.1 (mem_of_find?_eq_some h), ?_⟩
  have := find?_some h
  exact beq_iff_eq.mp this

lemma validateResult_link {visited : List Arg} (h : validateResult visited r = .ok ()) {res : ArgId}
    (hres : r.res = some res) :
    ∃ target, .result target ∈ visited ∧ target.id = res ∧ r.id ∈ target.uses := by
  simp only [validateResult, bind_eq_ok_iff] at h
  obtain ⟨_, _, _, hlink, _⟩ := h
  simp only [validateLink, hres] at hlink
  split at hlink
  · cases hlink
  · rename_i target hfind
    obtain ⟨hmem, hid⟩ := findResult_spec hfind
    exact ⟨target, hmem, hid, not_not.mp (failIf_eq_ok_iff.1 hlink)⟩

/-- A check that visits the arguments `l` in turn. -/
def Visits (check : List Arg → Except String (List Arg)) (l : List Arg) : Prop :=
  ∀ visited v, check visited = .ok v → v = visited ++ l ∧ (ValidOrder visited → ValidOrder v)

lemma visits_validateNode (arg : Arg) : Visits (validateNode target · arg) [arg] := by
  intro visited v h
  simp only [validateNode, bind_eq_ok_iff] at h
  obtain ⟨_, hfresh, _, hkind, hv⟩ := h
  cases hv
  refine ⟨rfl, fun hvalid => ⟨?_, ?_⟩⟩
  · have hnew : arg.id ∉ visited.map Arg.id := by
      rw [failIf_eq_ok_iff] at hfresh
      simpa using hfresh
    rw [map_append, map_singleton, ← concat_eq_append]
    exact hvalid.nodup.concat hnew
  · intro pre r post heq res hres
    -- the result is the new argument, or one that passed before
    rcases eq_nil_or_concat post with rfl | ⟨post, last, rfl⟩
    · obtain ⟨rfl, hlast⟩ := append_inj' heq rfl
      obtain rfl : arg = .result r := by simpa using hlast
      exact validateResult_link hkind hres
    · rw [concat_eq_append, ← cons_append, ← append_assoc] at heq
      obtain ⟨hvisited, -⟩ := append_inj' heq rfl
      exact hvalid.link pre r post hvisited res hres

lemma visits_foldlM {β : Type} {check : List Arg → β → Except String (List Arg)}
    {nodes : β → List Arg} (h : ∀ b, Visits (check · b) (nodes b)) (l : List β) :
    Visits (fun visited => l.foldlM check visited) (l.flatMap nodes) := by
  intro visited v hfold
  refine foldlM_invariant
    (fun done v => v = visited ++ done.flatMap nodes ∧ (ValidOrder visited → ValidOrder v))
    ?_ ⟨by simp, id⟩ hfold
  intro done b v v' hv hstep
  obtain ⟨rfl, hvalid⟩ := h b v v' hstep
  obtain ⟨rfl, hprev⟩ := hv
  exact ⟨by simp, fun hvisited => hvalid (hprev hvisited)⟩

lemma visits_validateArg (dir : Dir) (arg : Arg) :
    Visits (validateArg target dir · arg) arg.subtree := by
  intro visited v h
  simp only [validateArg, bind_eq_ok_iff] at h
  obtain ⟨_, _, h⟩ := h
  have := visits_foldlM (visits_validateNode target) arg.subtree visited v h
  rwa [flatMap_singleton'] at this

lemma visits_validateRet (c : Call) : Visits (validateRet target · c.ret) c.retNodes := by
  intro visited v h
  unfold Call.retNodes
  cases hret : c.ret with
  | none =>
    rw [hret] at h
    cases h
    exact ⟨by simp, id⟩
  | some r =>
    simp only [hret, validateRet, bind_eq_ok_iff] at h
    obtain ⟨_, _, h⟩ := h
    exact visits_validateArg target .dirOut (.result r) visited v h

lemma visits_validateCall (c : Call) : Visits (validateCall target · c) c.nodes := by
  intro visited v h
  simp only [validateCall, bind_eq_ok_iff] at h
  obtain ⟨_, _, mid, hargs, hret⟩ := h
  obtain ⟨rfl, hmid⟩ := visits_foldlM (visits_validateArg target .dirIn) c.args visited mid hargs
  obtain ⟨rfl, hv⟩ := visits_validateRet target c _ v hret
  refine ⟨?_, fun hvisited => hv (hmid hvisited)⟩
  rw [Call.nodes, Call.argNodes, append_assoc]

/-- The arguments of a valid program, call by call. -/
lemma validOrder_of_validate {p : Prog} (h : p.validate = .ok ()) :
    ValidOrder (p.calls.flatMap Call.nodes) := by
  simp only [Prog.validate, bind_eq_ok_iff] at h
  obtain ⟨visited, hcalls, -⟩ := h
  obtain ⟨rfl, hvalid⟩ := visits_foldlM (visits_validateCall p.target) p.calls [] visited hcalls
  exact hvalid ⟨by simp, by simp⟩

end KConfuzz
