import KConfuzz.Prog.Array

/-!
# Arrays and their declared lengths

`randRange` stays in the range (`randRange_spec`), so an array is too short or too long only where
its length is not taken from there. There are three such places: an array below the recursion
limit is empty, one that is generated for a resource is never empty, and `ArrayType.mutate` starts
its search for another length with 0, which is another length for every array but the empty one.
-/

namespace KConfuzz

open Lib.ExceptFold RandGen List
open UInt64 (toNat_zero le_iff_toNat_le toNat_inj)

variable {σ : Type} {env : GenEnv σ} {t : ArrayDesc} {r r' : RandGen σ}

/-! ## Random lengths -/

variable {n : ℕ}

lemma intn_spec {x : ℕ} (h : intn n r = .ok (x, r')) :
    x < n ∧ r'.inGenerateResource = r.inGenerateResource := by
  unfold intn at h
  split_ifs at h with hn
  split at h
  · cases h
  · cases h
    exact ⟨Nat.mod_lt _ (Nat.pos_of_ne_zero hn), rfl⟩

variable {count : UInt64}

/-- `randRange` neither wraps around nor leaves the range. -/
lemma randRange_spec {rangeBegin rangeEnd : UInt64} (hle : rangeBegin ≤ rangeEnd)
    (h : randRange rangeBegin rangeEnd r = .ok (count, r')) :
    rangeBegin ≤ count ∧ count ≤ rangeEnd ∧ r'.inGenerateResource = r.inGenerateResource := by
  unfold randRange at h
  by_cases hneg : 2 ^ 63 ≤ (rangeEnd - rangeBegin + 1).toNat
  · simp only [hneg, if_true] at h
    cases h
  simp only [hneg, if_false] at h
  obtain ⟨x, r1, hx, h⟩ := stateT_bind_eq_ok_iff.1 h
  cases h
  obtain ⟨hlt, hres⟩ := intn_spec hx
  have hsub : (rangeEnd - rangeBegin).toNat = rangeEnd.toNat - rangeBegin.toNat :=
    UInt64.toNat_sub_of_le _ _ hle
  have hend := rangeEnd.toNat_lt
  rw [le_iff_toNat_le] at hle ⊢
  rw [le_iff_toNat_le]
  simp only [UInt64.toNat_add, UInt64.toNat_ofNat', UInt64.toNat_one] at hlt ⊢
  -- The number is at most the difference of the bounds, so nothing wraps around.
  exact ⟨by omega, by omega, hres⟩

/-! ## Generation -/

variable {dir : Dir} {inner : List Arg} {calls : List Call}

lemma length_generateElems {elem : ElemType}
    (h : generateElems env elem dir n r = .ok ((inner, calls), r')) :
    inner.length = n := by
  induction n generalizing r r' inner calls with
  | zero =>
    cases h
    rfl
  | succ n ih =>
    obtain ⟨⟨arg1, calls1⟩, r1, -, h⟩ := stateT_bind_eq_ok_iff.1 h
    obtain ⟨⟨inner', calls'⟩, r2, hrest, h⟩ := stateT_bind_eq_ok_iff.1 h
    cases h
    rw [length_cons, ih hrest]

lemma pruneRecursion_eq (elem : ElemType) (limit : ℕ) (r : RandGen σ) :
    pruneRecursion elem limit r =
      .ok (if r.pruned elem limit then (false, r) else (true, r.changeDepth elem (· + 1))) := by
  show (if r.pruned elem limit then _ else _ : Gen σ Bool) r = _
  split <;> rfl

lemma inGenerateResource_changeDepth (r : RandGen σ) (elem : ElemType) (f : ℕ → ℕ) :
    (r.changeDepth elem f).inGenerateResource = r.inGenerateResource := by
  unfold changeDepth
  split <;> rfl

variable {a : GroupArg}

section

variable (hkind : t.kind = .arrayRangeLen) (hle : t.rangeBegin ≤ t.rangeEnd)
  (h : t.generate env dir r = .ok ((a, calls), r'))

include hkind hle h

/-- The length of a new array: 0 below the recursion limit, and a number of the range otherwise,
where 1 is taken for 0 if the array is for a resource. -/
lemma generate_spec :
    if r.pruned t.elem arrayRecursionLimit then a.inner = []
    else ∃ count : UInt64, t.rangeBegin ≤ count ∧ count ≤ t.rangeEnd ∧
      a.inner.length = if r.inGenerateResource ∧ count = 0 then 1 else count.toNat := by
  obtain ⟨ok, r1, hprune, h⟩ := stateT_bind_eq_ok_iff.1 h
  rw [pruneRecursion_eq] at hprune
  split
  · rename_i hpruned
    rw [if_pos hpruned] at hprune
    cases hprune
    cases h
    rfl
  · rename_i hpruned
    rw [if_neg hpruned] at hprune
    cases hprune
    obtain ⟨count, r2, hcount, h⟩ := stateT_bind_eq_ok_iff.1 h
    obtain ⟨r3, r4, hget, h⟩ := stateT_bind_eq_ok_iff.1 h
    cases hget
    obtain ⟨⟨inner, calls'⟩, r5, hinner, h⟩ := stateT_bind_eq_ok_iff.1 h
    cases h
    simp only [ArrayDesc.randCount, hkind] at hcount
    obtain ⟨hbegin, hend, hres⟩ := randRange_spec hle hcount
    refine ⟨count, hbegin, hend, ?_⟩
    rw [length_generateElems hinner, hres, inGenerateResource_changeDepth]
    split <;> rfl

/-- A new array has a declared length unless it is cut short or filled up. -/
lemma inRange_generate_iff :
    t.InRange a.inner.length ↔
      if r.pruned t.elem arrayRecursionLimit then t.rangeBegin = 0
      else r.inGenerateResource → t.rangeEnd ≠ 0 := by
  have hspec := generate_spec hkind hle h
  unfold ArrayDesc.InRange
  split at hspec
  · rename_i hpruned
    rw [if_pos hpruned, hspec, ← toNat_inj]
    simp only [length_nil, toNat_zero]
    omega
  · rename_i hpruned
    rw [if_neg hpruned]
    obtain ⟨count, hbegin, hend, hlength⟩ := hspec
    rw [le_iff_toNat_le] at hbegin hend
    rw [hlength, Ne, ← @toNat_inj t.rangeEnd, toNat_zero]
    by_cases hres : r.inGenerateResource = true ∧ count = 0
    · -- The length is 1 though 0 was drawn.
      rw [if_pos hres]
      have hzero : count.toNat = 0 := by
        rw [hres.2]
        rfl
      simp only [hres.1, true_implies]
      omega
    · rw [if_neg hres]
      refine iff_of_true ⟨hbegin, hend⟩ fun hgen hzero => hres ⟨hgen, ?_⟩
      rw [← toNat_inj, toNat_zero]
      omega

end

/-! ## Mutation -/

variable {inner' : List Arg}

lemma length_swapElems (inner : List Arg) (i j : ℕ) :
    (swapElems inner i j).length = inner.length := by
  unfold swapElems
  split <;> simp

lemma length_swapRandomly {fuel : ℕ} (h : swapRandomly fuel inner r = .ok (inner', r')) :
    inner'.length = inner.length := by
  induction fuel generalizing inner r with
  | zero => cases h
  | succ fuel ih =>
    obtain ⟨again, r1, -, h⟩ := stateT_bind_eq_ok_iff.1 h
    cases again with
    | false =>
      cases h
      rfl
    | true =>
      obtain ⟨i, r2, -, h⟩ := stateT_bind_eq_ok_iff.1 h
      obtain ⟨j, r3, -, h⟩ := stateT_bind_eq_ok_iff.1 h
      rw [ih h, length_swapElems]

lemma length_swapFirst (h : swapFirst inner r = .ok (inner', r')) :
    inner'.length = inner.length := by
  unfold swapFirst at h
  split_ifs at h
  · obtain ⟨swap, r1, -, h⟩ := stateT_bind_eq_ok_iff.1 h
    cases swap with
    | false =>
      cases h
      rfl
    | true =>
      exact length_swapRandomly h
  · cases h
    rfl

/-- A number that is not the length is taken at once; otherwise one of `next` is. -/
lemma countOtherThan_spec {len count' : UInt64} {next : Gen σ UInt64} {fuel : ℕ}
    (P : UInt64 → Prop) (hnext : ∀ r x r', next r = .ok (x, r') → P x)
    (h : countOtherThan len next fuel count r = .ok (count', r')) :
    if count = len then P count' else count' = count := by
  induction fuel generalizing count r with
  | zero => cases h
  | succ fuel ih =>
    unfold countOtherThan at h
    split_ifs at h ⊢ with hlen
    · obtain ⟨count1, r1, hcount, h⟩ := stateT_bind_eq_ok_iff.1 h
      have hstep := ih h
      split at hstep
      · exact hstep
      · rw [hstep]
        exact hnext _ _ _ hcount
    · cases h
      rfl

lemma length_appendElems {elem : ElemType} {calls' : List Call}
    (h : appendElems env elem dir n inner calls r = .ok ((inner', calls'), r')) :
    inner'.length = inner.length + n := by
  induction n generalizing r inner calls with
  | zero =>
    cases h
    rfl
  | succ n ih =>
    obtain ⟨u, r2, -, h⟩ := stateT_bind_eq_ok_iff.1 h
    rw [ih h, length_append, length_singleton]
    omega

lemma length_resize {count : ℕ} (h : resize env t dir inner count r = .ok ((inner', calls), r')) :
    inner'.length = count := by
  unfold resize at h
  split_ifs at h with hlt hgt
  · rw [length_appendElems h]
    omega
  · obtain ⟨u, r1, -, h⟩ := stateT_bind_eq_ok_iff.1 h
    cases h
    rw [length_take]
    omega
  · cases h
    omega

section

variable (hkind : t.kind = .arrayRangeLen)

include hkind

/-- An array that is not empty loses all its elements, and an empty one gets a length of the
range. -/
lemma newCount_spec (hle : t.rangeBegin ≤ t.rangeEnd)
    {len : UInt64} (h : t.newCount len r = .ok (count, r')) :
    if len = 0 then t.rangeBegin ≤ count ∧ count ≤ t.rangeEnd else count = 0 := by
  obtain ⟨r1, r2, hget, h⟩ := stateT_bind_eq_ok_iff.1 h
  simp only [hkind] at h
  split_ifs at h
  · cases h
  · have hspec := countOtherThan_spec (fun count => t.rangeBegin ≤ count ∧ count ≤ t.rangeEnd)
      (fun r x r' hx => ⟨(randRange_spec hle hx).1, (randRange_spec hle hx).2.1⟩) h
    simpa only [eq_comm] using hspec

/-- A mutated array is in range exactly if the range starts at zero. -/
lemma inRange_mutate_iff (hle : t.rangeBegin ≤ t.rangeEnd)
    {a' : GroupArg} (ha : t.InRange a.inner.length) (h : t.mutate env a r = .ok ((a', calls), r')) :
    t.InRange a'.inner.length ↔ t.rangeBegin = 0 := by
  obtain ⟨inner, r1, hswap, h⟩ := stateT_bind_eq_ok_iff.1 h
  obtain ⟨count, r2, hcount, h⟩ := stateT_bind_eq_ok_iff.1 h
  obtain ⟨⟨inner', calls'⟩, r3, hresize, h⟩ := stateT_bind_eq_ok_iff.1 h
  cases h
  show t.InRange inner'.length ↔ _
  rw [length_resize hresize]
  have hspec := newCount_spec hkind hle hcount
  rw [length_swapFirst hswap] at hspec
  unfold ArrayDesc.InRange at ha ⊢
  rw [← toNat_inj, toNat_zero]
  split at hspec
  · -- The array was empty, so 0 is in the range.
    rename_i hlen
    rw [← toNat_inj, UInt64.toNat_ofNat', toNat_zero,
      Nat.mod_eq_of_lt (lt_of_le_of_lt ha.2 t.rangeEnd.toNat_lt)] at hlen
    rw [le_iff_toNat_le, le_iff_toNat_le] at hspec
    omega
  · rw [hspec, toNat_zero]
    omega

/-! ## Minimization -/

lemma inRange_of_mayRemove (hn : t.InRange n) (h : t.mayRemove n = true) : t.InRange (n - 1) := by
  simp only [ArrayDesc.mayRemove, hkind, decide_eq_true_eq] at h
  unfold ArrayDesc.InRange at hn ⊢
  omega

end

variable {mode : MinimizeMode} {path : String} {s : MinArray}

section

variable (hkind : t.kind = .arrayRangeLen) (hs : t.InRange s.inner.length)

include hkind hs

/-- Removing elements stays in range. -/
lemma inRange_minimizeElems {env : ElemMinimizer} {again : Bool} {i : ℕ} {s' : MinArray}
    (h : minimizeElems env t mode path i s = .ok (again, s')) : t.InRange s'.inner.length := by
  induction i generalizing s with
  | zero =>
    cases h
    exact hs
  | succ i ih =>
    unfold minimizeElems at h
    split at h
    · cases h
    rename_i elem helem
    split_ifs at h with hremove
    · obtain ⟨heap, -, h⟩ := bind_eq_ok_iff.1 h
      cases h
      have hi : i < s.inner.length := (List.getElem?_eq_some_iff.mp helem).1
      show t.InRange (List.map _ (s.inner.eraseIdx i)).length
      rw [length_map, length_eraseIdx_of_lt hi]
      exact inRange_of_mayRemove hkind hs hremove.2.2
    · obtain ⟨⟨again', elem', triedPaths, heap⟩, -, h⟩ := bind_eq_ok_iff.1 h
      have hset : t.InRange (s.inner.set i elem').length := by
        rw [length_set]
        exact hs
      cases again' with
      | true =>
        cases h
        exact hset
      | false => exact ih hset h

lemma inRange_minimize {env : ElemMinimizer} {again : Bool} {s' : MinArray}
    (h : t.minimize env mode path s = .ok (again, s')) :
    t.InRange s'.inner.length := by
  unfold ArrayDesc.minimize at h
  dsimp only at h
  split_ifs at h with hall
  · obtain ⟨heap, -, h⟩ := bind_eq_ok_iff.1 h
    cases h
    show t.InRange 0
    unfold ArrayDesc.InRange
    rw [hall.2.1, toNat_zero]
    omega
  · exact inRange_minimizeElems hkind hs h

/-- All rounds stay in range. -/
lemma inRange_minimizeRounds {env : ElemMinimizer} {answers : List Bool} {arrays : List (List Arg)}
    (h : t.minimizeRounds env mode path answers s = .ok arrays) :
    ∀ inner ∈ arrays, t.InRange inner.length := by
  induction answers generalizing s arrays with
  | nil =>
    cases h
    simpa using hs
  | cons ok answers ih =>
    obtain ⟨⟨again, s'⟩, hround, h⟩ := bind_eq_ok_iff.1 h
    have hs' := inRange_minimize hkind hs hround
    cases again with
    | false =>
      cases h
      simpa using hs
    | true =>
      obtain ⟨arrays', hrest, h⟩ := bind_eq_ok_iff.1 h
      cases h
      rw [forall_mem_cons]
      refine ⟨hs', ih ?_ hrest⟩
      cases ok with
      | true => exact hs'
      | false => exact hs

end

/-! ## All operations on arrays -/

/-- `array[int32, rangeBegin:rangeEnd]` -/
def int32s (rangeBegin rangeEnd : UInt64) : ArrayDesc where
  typeName := "array"
  typeSize := 0
  isVarlen := true
  elem := .other
  kind := .arrayRangeLen
  rangeBegin := rangeBegin
  rangeEnd := rangeEnd

def int32Arg : Arg :=
  .const 0 .dirIn
    (.int { typeName := "int32", typeSize := 4, argFormat := .formatNative
            bitfieldOff := 0, bitfieldLen := 0, bitfieldUnit := 0, bitfieldUnitOff := 0 }) 0

/-- Elements are zeros. -/
def zeroEnv : GenEnv Unit where
  generateArg _ _ := return (int32Arg, [])
  analyze _ _ := ()

def keepElems : ElemMinimizer where
  doElem s elem _ := return (false, elem, s.triedPaths, s.heap)
  assignSizes _ elem := elem

def genOf (numbers : List ℕ) : RandGen Unit where
  numbers := numbers
  recDepth _ := 0
  inGenerateResource := false
  state := ()
  heap _ := none

/-- For an array type with a range, when the length of a result is in the range: minimization
always leaves it there, generation does when it is not stopped by the recursion limit, or when no
element is needed, and mutation does when no element is needed. -/
theorem length_inRange_iff (env : GenEnv σ) (menv : ElemMinimizer) (t : ArrayDesc)
    (hkind : t.kind = .arrayRangeLen) (hle : t.rangeBegin ≤ t.rangeEnd) :
    (∀ dir r a calls r', t.generate env dir r = .ok ((a, calls), r') →
      (t.InRange a.inner.length ↔
        if r.pruned t.elem arrayRecursionLimit then t.rangeBegin = 0
        else r.inGenerateResource → t.rangeEnd ≠ 0)) ∧
    (∀ a r a' calls r', t.InRange a.inner.length → t.mutate env a r = .ok ((a', calls), r') →
      (t.InRange a'.inner.length ↔ t.rangeBegin = 0)) ∧
    (∀ mode path answers s arrays, t.InRange s.inner.length →
      t.minimizeRounds menv mode path answers s = .ok arrays →
      ∀ inner ∈ arrays, t.InRange inner.length) :=
  ⟨fun _ _ _ _ _ h => inRange_generate_iff hkind hle h,
    fun _ _ _ _ _ ha h => inRange_mutate_iff hkind hle ha h,
    fun _ _ _ _ _ hs h => inRange_minimizeRounds hkind hs h⟩

/-- An empty array of `array[int32, 0:3]` becomes one of two elements. -/
theorem length_inRange_int32s :
    ∃ a' calls r', (int32s 0 3).mutate zeroEnv ⟨int32s 0 3, .dirIn, []⟩ (genOf [2]) =
        .ok ((a', calls), r') ∧ a'.inner.length = 2 ∧ (int32s 0 3).InRange a'.inner.length :=
  have h : (int32s 0 3).mutate zeroEnv ⟨int32s 0 3, .dirIn, []⟩ (genOf [2]) =
      .ok ((⟨int32s 0 3, .dirIn, [int32Arg, int32Arg]⟩, []), genOf []) := rfl
  ⟨_, _, _, h, rfl, ((length_inRange_iff zeroEnv keepElems (int32s 0 3) rfl (by decide)).2.1
    _ _ _ _ _ (by decide) h).mpr rfl⟩

/-- An array of `array[int32, 2:3]` with two elements loses both of them. -/
theorem not_inRange_mutate_int32s :
    ∃ a a' calls r r', (int32s 2 3).InRange a.inner.length ∧
      (int32s 2 3).mutate zeroEnv a r = .ok ((a', calls), r') ∧
      ¬ (int32s 2 3).InRange a'.inner.length :=
  ⟨⟨int32s 2 3, .dirIn, [int32Arg, int32Arg]⟩, ⟨int32s 2 3, .dirIn, []⟩, [], genOf [1],
    genOf [], by decide, rfl, by decide⟩

end KConfuzz
