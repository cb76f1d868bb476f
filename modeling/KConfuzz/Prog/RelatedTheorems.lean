import Mathlib.Data.List.Infix
import Mathlib.Data.List.Perm.Subperm
import KConfuzz.Lib.Saturation
import KConfuzz.Prog.Minimize

/-!
# The calls that are related to a target (`relatedCalls`)

A round takes the calls that use something in common with what was used so far, and what they use
counts at once. The rounds end when nothing more is used, and then the calls that were taken are
the ones that a chain of common uses connects with the target (`relatedCalls_spec`).
-/

namespace KConfuzz

open Lib.Saturation List Relation

variable {calls : List Call} {used used' l l' : List Used} {target i n : ℕ}

/-! ## Sets of what is used -/

lemma mem_addUsed {what : Used} : what ∈ addUsed used l ↔ what ∈ used ∨ what ∈ l := by
  unfold addUsed
  induction l generalizing used with
  | nil => simp
  | cons a l ih =>
    rw [foldl_cons, ih, mem_insert_iff, mem_cons]
    tauto

lemma nodup_addUsed (h : used.Nodup) : (addUsed used l).Nodup :=
  foldlRecOn (motive := Nodup) _ _ h fun _ h _ _ => h.insert

lemma suffix_addUsed : used <:+ addUsed used l :=
  foldlRecOn (motive := (used <:+ ·)) _ _ (suffix_refl _) fun _ h _ _ =>
    h.trans (suffix_insert _ _)

lemma intersects_iff : intersects used l ↔ ∃ what ∈ l, what ∈ used := by
  simp [intersects]

/-! ## Rounds -/

/-- The calls have a result or a file name in common. -/
def ShareUse (calls : List Call) (i j : ℕ) : Prop :=
  ∃ c ∈ calls[i]?, ∃ d ∈ calls[j]?, ∃ what ∈ uses c, what ∈ uses d

/-- The target and calls that are related to it are kept, and `used` is what they use. -/
structure RelatedInv (calls : List Call) (target : ℕ) (s : List ℕ × List Used) : Prop where
  nodup : s.1.Nodup
  target_mem : target ∈ s.1
  reach : ∀ i ∈ s.1, ReflTransGen (ShareUse calls) target i
  used : ∀ what, what ∈ s.2 ↔ ∃ i ∈ s.1, ∃ c ∈ calls[i]?, what ∈ uses c

/-- The body of the loop of `relatedRound`. -/
def relatedStep (s : List ℕ × List Used) (c : Call × ℕ) : List ℕ × List Used :=
  if s.1.contains c.2 then s
  else if intersects s.2 (uses c.1) then (c.2 :: s.1, addUsed s.2 (uses c.1))
  else s

variable {s : List ℕ × List Used}

/-- The rounds are sweeps of `relatedStep` over the calls. -/
lemma relatedRounds_eq {keepCalls : List ℕ} :
    relatedRounds calls n keepCalls used =
      (rounds relatedStep (fun _ => calls.zipIdx) (·.2.length) n (keepCalls, used)).map
        Prod.fst := by
  induction n generalizing keepCalls used with
  | zero => rfl
  | succ n ih =>
    rw [relatedRounds, rounds, ih, apply_ite (Option.map Prod.fst)]
    simp only [eq_comm]
    rfl

lemma RelatedInv.start :
    RelatedInv calls target ([target], addUsed [] (calls[target]?.elim [] uses)) := by
  refine ⟨nodup_singleton _, mem_singleton_self _, forall_mem_singleton.mpr .refl, fun what => ?_⟩
  rw [mem_addUsed]
  cases hget : calls[target]? <;> simp [hget]

/-- A call that shares something with the related ones is related. -/
lemma RelatedInv.step (h : RelatedInv calls target s) {c : Call × ℕ} (hc : c ∈ calls.zipIdx) :
    RelatedInv calls target (relatedStep s c) := by
  have hget := mk_mem_zipIdx_iff_getElem?.mp hc
  unfold relatedStep
  split_ifs with hmem huse
  · exact h
  · rw [contains_iff_mem] at hmem
    obtain ⟨what, hwhat, hused⟩ := intersects_iff.1 huse
    obtain ⟨i, hi, d, hd, hwhat'⟩ := (h.used what).mp hused
    refine ⟨nodup_cons.mpr ⟨hmem, h.nodup⟩, mem_cons_of_mem _ h.target_mem, ?_, ?_⟩
    · rw [forall_mem_cons]
      exact ⟨(h.reach i hi).tail ⟨d, hd, c.1, hget, what, hwhat', hwhat⟩, h.reach⟩
    · intro what
      rw [mem_addUsed, h.used]
      simp [hget, or_comm]
  · exact h

lemma RelatedInv.rounds {s' : List ℕ × List Used} (h : RelatedInv calls target s)
    (hs' : rounds relatedStep (fun _ => calls.zipIdx) (·.2.length) n s = some s') :
    RelatedInv calls target s' :=
  rounds_inv (fun _ _ hc _ h => h.step hc) h hs'

lemma target_mem_relatedCalls {p0 : Prog} : target ∈ (relatedCalls p0 target).getD [target] := by
  rw [relatedCalls, relatedRounds_eq]
  generalize hs' : rounds _ _ _ _ _ = s'
  cases s' with
  | none => exact mem_singleton_self _
  | some s' => exact (RelatedInv.start.rounds hs').target_mem

lemma RelatedInv.length_le (h : RelatedInv calls target s) (ht : target < calls.length) :
    s.1.length ≤ calls.length := by
  have hsub : s.1 ⊆ List.range calls.length := by
    intro i hi
    rw [mem_range]
    cases h.reach i hi with
    | refl => exact ht
    | tail _ hshare =>
      obtain ⟨c, -, d, hd, -⟩ := hshare
      exact (List.getElem?_eq_some_iff.mp hd).1
  simpa using (subperm_of_subset h.nodup hsub).length_le

/-- In the end every call is kept, or it has nothing in common with what is used. -/
lemma saturates_relatedStep : Saturates relatedStep (·.2.length) (·.1.length) fun s c =>
      c.2 ∈ s.1 ∨ ¬ intersects s.2 (uses c.1) := by
  have hcases : ∀ s c, relatedStep s c = s ∨
      relatedStep s c = (c.2 :: s.1, addUsed s.2 (uses c.1)) := by
    intro s c
    unfold relatedStep
    split_ifs <;> simp
  constructor
  · intro s c
    exact (hcases s c).imp_right fun heq => by simp [heq]
  · intro s c
    rcases hcases s c with heq | heq <;> rw [heq]
    exact suffix_addUsed.length_le
  · intro s c
    unfold relatedStep
    split_ifs with hmem huse
    · exact .inl (contains_iff_mem.mp hmem)
    · exact .inl mem_cons_self
    · exact .inr huse
  · intro s c d hc hsize
    rcases hcases s d with heq | heq <;> rw [heq] at hsize ⊢
    · exact hc
    · have hused := suffix_addUsed.eq_of_length hsize.symm
      exact hc.imp (mem_cons_of_mem _) fun hc => hused ▸ hc

/-- When more rounds are allowed than there are calls, the loop ends, and all related calls are
found. -/
lemma relatedRounds_spec (ht : target < calls.length) (hn : calls.length < n) :
    ∃ keep, relatedRounds calls n [target] (addUsed [] (calls[target]?.elim [] uses)) = some keep ∧
      ∀ i, i ∈ keep ↔ ReflTransGen (ShareUse calls) target i := by
  obtain ⟨s', hs', -, hsettled⟩ := saturates_relatedStep.rounds_settled (n := n)
    (fun _ _ hc _ h => h.step hc) (fun _ h => h.length_le ht) RelatedInv.start (by simp; omega)
  have hinv : RelatedInv calls target s' := RelatedInv.start.rounds hs'
  refine ⟨s'.1, by rw [relatedRounds_eq, hs']; rfl, fun i => ⟨hinv.reach i, fun hreach => ?_⟩⟩
  induction hreach with
  | refl => exact hinv.target_mem
  | @tail j k _ hshare hj =>
    obtain ⟨c, hc, d, hd, what, hwhat, hwhat'⟩ := hshare
    -- what they have in common is used once the first of them is kept
    have hused := (hinv.used what).mpr ⟨j, hj, c, hc, hwhat⟩
    refine (hsettled (d, k) (mk_mem_zipIdx_iff_getElem?.mpr hd)).resolve_right (not_not.mpr ?_)
    exact intersects_iff.2 ⟨what, hwhat', hused⟩

/-- The loop ends, the calls that are connected with the target by a chain of common uses are
found, and allowing more rounds changes nothing. The order in which a map is gone through does not
matter for the test and the update of what is used. -/
theorem relatedCalls_spec (p0 : Prog) {callIndex0 : ℕ} (ht : callIndex0 < p0.calls.length) :
    (∃ keep, relatedCalls p0 callIndex0 = some keep ∧
      ∀ i, i ∈ keep ↔ ReflTransGen (ShareUse p0.calls) callIndex0 i) ∧
    (∀ n, p0.calls.length < n → ∃ keep,
      relatedRounds p0.calls n [callIndex0] (addUsed [] (p0.calls[callIndex0]?.elim [] uses)) =
        some keep ∧ ∀ i, i ∈ keep ↔ ReflTransGen (ShareUse p0.calls) callIndex0 i) ∧
    ∀ used used' l l' : List Used, used.Nodup → used ~ used' → l ~ l' →
      intersects used l = intersects used' l' ∧ addUsed used l ~ addUsed used' l' := by
  refine ⟨relatedRounds_spec ht (Nat.lt_succ_self _), fun n hn => relatedRounds_spec ht hn,
    fun used used' l l' hnodup hused hl => ⟨?_, ?_⟩⟩
  · rw [Bool.eq_iff_iff, intersects_iff, intersects_iff]
    simp only [hused.mem_iff, hl.mem_iff]
  · rw [perm_ext_iff_of_nodup (nodup_addUsed hnodup) (nodup_addUsed (hused.nodup_iff.mp hnodup))]
    intro what
    rw [mem_addUsed, mem_addUsed, hused.mem_iff, hl.mem_iff]

def fileTarget : Target :=
  { syscalls := [{ id := 0, name := "open" }, { id := 1, name := "dup" }, { id := 2, name := "sync" }]
    dataOffset := 0, specialPointers := [] }

lemma file_values_ne_nil : [(0xffffffffffffffff : UInt64)] ≠ [] := by simp

def fileResult (id : ArgId) (dir : Dir) (res : Option ArgId) (uses : List ArgId) : ResultArg :=
  { id, dir, res, opDiv := 0, opAdd := 0, val := 0, uses
    typ := { typeName := "fd", typeSize := 4, argFormat := .formatNative
             desc := ⟨"fd", [0xffffffffffffffff], file_values_ne_nil⟩ } }

/-- `r0 = open()`, `sync()`, `dup(r0)` -/
def fileProg : Prog :=
  { target := fileTarget
    calls := [
      { callMeta := { id := 0, name := "open" }, args := [], props := .zero
        ret := some (fileResult 0 .dirOut none [1]) },
      { callMeta := { id := 2, name := "sync" }, args := [], ret := none, props := .zero },
      { callMeta := { id := 1, name := "dup" }, props := .zero
        args := [.result (fileResult 1 .dirIn (some 0) [])]
        ret := some (fileResult 2 .dirOut none []) }]
    callMeta_mem := by decide }

/-- The file is what `dup` has in common with `open`; `sync` has nothing to do with it. -/
theorem relatedCalls_fileProg :
    ReflTransGen (ShareUse fileProg.calls) 2 0 ∧ ¬ ReflTransGen (ShareUse fileProg.calls) 2 1 := by
  obtain ⟨keep, hkeep, hmem⟩ := (@relatedCalls_spec fileProg 2 (by decide)).1
  have hcalls : relatedCalls fileProg 2 = some [0, 2] := by decide
  cases hcalls.symm.trans hkeep
  exact ⟨(hmem 0).mp (by decide), fun h => absurd ((hmem 1).mpr h) (by decide)⟩

def syncTarget : Target :=
  { syscalls := [{ id := 0, name := "sync" }, { id := 1, name := "munlockall" },
      { id := 2, name := "sched_yield" }]
    dataOffset := 0, specialPointers := [] }

/-- `sync()`, `munlockall()`, `sched_yield()` -/
def syncProg : Prog :=
  { target := syncTarget
    calls := syncTarget.syscalls.map fun s =>
      { callMeta := s, args := [], ret := none, props := .zero }
    callMeta_mem := by decide }

end KConfuzz
