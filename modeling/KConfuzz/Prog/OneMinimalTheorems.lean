import KConfuzz.Lib.Narrowing
import KConfuzz.Prog.CloneTheorems
import KConfuzz.Prog.MinimizeTheorems

/-!
# When no call of a minimized program can be removed

The predicate of this module looks at the calls of the original program that are left and at the
target call, and it stays true when more calls are left. Minimization should end with a program
of which no other call can be removed. But the answers are remembered by the text of the program,
and the text does not tell which call is the target: a program can be refused because another one
of the same text was (`oneMinimal_iff_toldApart`).

As the programs that are proposed get shorter and shorter, memory never accepts anything
(`Tracks`), so the runs of `removeCalls` are those of `narrowCalls`, where a program that is wanted
is taken unless its text was refused before.
-/

namespace KConfuzz

open Lib.Oracle List Candidate

/-! ## Predicates on the calls that are left -/

/-- The target call, as a call of the original program. -/
def Candidate.target (t : Candidate) : Option ℕ := t.callIndex.bind (t.kept[·]?)

/-- The predicate depends on the calls that are kept and on which of them is the target. -/
def MinEnv.withPred (env : MinEnv) (f : List ℕ → Option ℕ → Bool) : MinEnv :=
  { env with pred0 := fun asked => asked.getLast?.any fun t => f t.kept t.target }

/-- The predicate stays true when more calls are kept; so it looks at them as a set. -/
def KeptMonotone (f : List ℕ → Option ℕ → Bool) : Prop :=
  ∀ kept kept' target, kept ⊆ kept' → f kept target → f kept' target

/-- The text of a program has a line for each call, and different texts have different hashes. -/
def MinEnv.CountsCalls (env : MinEnv) : Prop :=
  ∀ p q : Prog, env.progID p = env.progID q → p.calls.length = q.calls.length

/-- All calls that are needed are kept. -/
def has (need kept : List ℕ) : Bool := need.all (kept.contains ·)

variable {need : List ℕ}

lemma has_iff {kept : List ℕ} : has need kept ↔ need ⊆ kept := by
  simp [has, subset_def]

lemma has_mono (kept kept' : List ℕ) (hle : kept ⊆ kept') (h : has need kept) : has need kept' := by
  rw [has_iff] at h ⊢
  exact Subset.trans h hle

/-! ## Narrowing -/

abbrev State := Narrowing Candidate String

/-- What becomes of a proposal, if there is one. -/
def narrow (env : MinEnv) (wanted : List ℕ → Bool) (s : State) : Option Candidate → State
  | some t =>
    s.offer (fun t => env.progID t.prog) (fun t => wanted t.kept) (t.sanitizeFix env)
  | none => s

/-- The state at the start. -/
def wholeState (p : Prog) (t : ℕ) : State :=
  { cur := { prog := p, kept := List.range p.calls.length, callIndex := some t }, refused := [] }

/-- The state before calls are removed one by one. -/
def narrowStart (env : MinEnv) (wanted : List ℕ → Bool) (p : Prog) (t : ℕ) : State :=
  let s := wholeState p t
  let s := narrow env wanted s s.cur.withoutTrailing
  narrow env wanted s s.cur.withoutUnrelated

def narrowEach (env : MinEnv) (wanted : List ℕ → Bool) : ℕ → State → State
  | 0, s => s
  | i + 1, s => narrowEach env wanted i (narrow env wanted s (s.cur.without i))

def narrowCalls (env : MinEnv) (wanted : List ℕ → Bool) (p : Prog) (t : ℕ) : State :=
  let s := narrowStart env wanted p t
  narrowEach env wanted s.cur.prog.calls.length s

section Narrowing

variable {env : MinEnv} {wanted : List ℕ → Bool} {p : Prog} {t : ℕ} {s : State} {c : Candidate}
  {proposal : Option Candidate}

lemma narrow_of_wanted (h : wanted c.kept) (hid : env.progID (c.sanitizeFix env).prog ∉ s.refused) :
    narrow env wanted s (some c) = { s with cur := c.sanitizeFix env } :=
  if_pos ⟨h, hid⟩

lemma narrow_of_refused (h : ¬ wanted c.kept ∨ env.progID (c.sanitizeFix env).prog ∈ s.refused) :
    narrow env wanted s (some c) =
      { s with refused := env.progID (c.sanitizeFix env).prog :: s.refused } :=
  if_neg fun hand => h.elim (fun h => h hand.1) hand.2

lemma cur_narrow_some :
    (narrow env wanted s (some c)).cur = c.sanitizeFix env ∨
      (narrow env wanted s (some c)).cur = s.cur := by
  by_cases htake : wanted c.kept ∧ env.progID (c.sanitizeFix env).prog ∉ s.refused
  · rw [narrow_of_wanted htake.1 htake.2]
    exact .inl rfl
  · rw [narrow_of_refused (by tauto)]
    exact .inr rfl

lemma narrow_cur (h : ∀ c ∈ proposal, Candidate.Smaller p (some t) s.cur c)
    (hs : s.cur.Of p (some t)) :
    (narrow env wanted s proposal).cur.Of p (some t) ∧
      (narrow env wanted s proposal).cur.kept.Sublist s.cur.kept := by
  cases proposal with
  | none => exact ⟨hs, Sublist.refl _⟩
  | some c =>
    have hc := h c rfl
    rcases cur_narrow_some with hcur | hcur <;> rw [hcur]
    · exact ⟨hc.of.mapCalls _ _, hc.kept⟩
    · exact ⟨hs, Sublist.refl _⟩

/-- When the calls `need` are enough and all of them are kept, they can as well be asked for. -/
lemma narrow_congr (hmono : ∀ kept kept', kept ⊆ kept' → wanted kept → wanted kept')
    (hneed : wanted need) (hsub : need ⊆ (narrow env wanted s proposal).cur.kept) :
    narrow env (has need) s proposal = narrow env wanted s proposal := by
  cases proposal with
  | none => rfl
  | some c =>
    rw [narrow, narrow]
    apply Narrowing.offer_congr
    intro hid
    show has need c.kept ↔ wanted c.kept
    rw [has_iff]
    constructor
    · intro hkept
      exact hmono _ _ hkept hneed
    · intro hwanted
      rw [narrow_of_wanted hwanted hid] at hsub
      exact hsub

/-- The step for the `i`-th call leaves the calls before it alone. -/
lemma narrow_without {i : ℕ} (hs : s.cur.Of p (some t)) (hi : i < s.cur.kept.length) :
    let s' := narrow env wanted s (s.cur.without i)
    s'.cur.Of p (some t) ∧ s'.cur.kept.Sublist s.cur.kept ∧
      s'.cur.kept.take i = s.cur.kept.take i ∧ i ≤ s'.cur.kept.length := by
  have hcur := @narrow_cur env wanted p t s (s.cur.without i)
    (fun c hc => smaller_without hs (hs.length_kept ▸ hi) hc) hs
  have htake : (narrow env wanted s (s.cur.without i)).cur.kept.take i = s.cur.kept.take i := by
    unfold without
    split_ifs
    · rfl
    · rcases cur_narrow_some with hcur | hcur <;> rw [hcur]
      exact take_eraseIdx_eq_take_of_le _ _ _ (Nat.le_refl i)
  have hlen := congrArg List.length htake
  rw [length_take, length_take] at hlen
  exact ⟨hcur.1, hcur.2, htake, by omega⟩

lemma narrowEach_cur {i : ℕ} (hs : s.cur.Of p (some t)) (hi : i ≤ s.cur.kept.length) :
    (narrowEach env wanted i s).cur.Of p (some t) ∧
      (narrowEach env wanted i s).cur.kept.Sublist s.cur.kept := by
  induction i generalizing s with
  | zero => exact ⟨hs, Sublist.refl _⟩
  | succ i ih =>
    obtain ⟨hof, hsub, -, hle⟩ := @narrow_without env wanted p t s i hs (by omega)
    obtain ⟨hof', hsub'⟩ := ih hof hle
    exact ⟨hof', hsub'.trans hsub⟩

end Narrowing

/-! ## The condition -/

/-- While the calls outside of `need` are removed one by one, no program that has all calls of
`need` has the text of one that was refused before. -/
def ToldApart (env : MinEnv) (need : List ℕ) : ℕ → State → Prop
  | 0, _ => True
  | i + 1, s =>
    (∀ c ∈ s.cur.without i, has need c.kept → env.progID (c.sanitizeFix env).prog ∉ s.refused) ∧
      ToldApart env need i (narrow env (has need) s (s.cur.without i))

instance decidableToldApart (env : MinEnv) (need : List ℕ) :
    ∀ (i : ℕ) (s : State), Decidable (ToldApart env need i s)
  | 0, _ => isTrue trivial
  | i + 1, s =>
    have := decidableToldApart env need i (narrow env (has need) s (s.cur.without i))
    inferInstanceAs (Decidable (_ ∧ _))

section Condition

variable {env : MinEnv} {wanted : List ℕ → Bool} {p : Prog} {t : ℕ} {s : State} {i : ℕ}

/-- Every call but the target can be left out. -/
lemma without_cases (hs : s.cur.Of p (some t)) (hi : i < s.cur.kept.length) :
    (s.cur.without i = none ∧ s.cur.kept[i] = t) ∨
      ∃ c, s.cur.without i = some c ∧ s.cur.kept[i] ≠ t ∧ t ∈ c.kept ∧
        c.kept = s.cur.kept.erase s.cur.kept[i] := by
  have hnodup : s.cur.kept.Nodup := hs.sorted.imp ne_of_lt
  by_cases hindex : s.cur.callIndex = some i
  · left
    have htarget := hs.target
    rw [hindex, Option.bind_some, getElem?_eq_getElem hi, Option.some.injEq] at htarget
    exact ⟨if_pos hindex, htarget⟩
  · right
    have hkept : (s.cur.removeCall i).kept = s.cur.kept.erase s.cur.kept[i] :=
      (hnodup.erase_getElem i hi).symm
    have ht : t ∈ (s.cur.removeCall i).kept := by
      obtain ⟨callIndex, -, hget⟩ := Option.bind_eq_some_iff.mp (hs.removeCall hindex).target
      exact mem_of_getElem? hget
    refine ⟨s.cur.removeCall i, if_neg hindex, ?_, ht, hkept⟩
    intro heq
    rw [hkept, heq] at ht
    exact hnodup.not_mem_erase ht

/-- When programs of equal text are told apart, each call that was offered and is still there is
wanted. -/
lemma narrowEach_minimal (hmono : ∀ kept kept', kept ⊆ kept' → wanted kept → wanted kept')
    (hs : s.cur.Of p (some t)) (hi : i ≤ s.cur.kept.length)
    (hapart : ∀ need, need.Sublist s.cur.kept → t ∈ need → wanted need → ToldApart env need i s) :
    ∀ j ∈ s.cur.kept.take i, j ∈ (narrowEach env wanted i s).cur.kept → j ≠ t →
      ¬ wanted ((narrowEach env wanted i s).cur.kept.erase j) := by
  induction i generalizing s with
  | zero => simp
  | succ i ih =>
    have hlt : i < s.cur.kept.length := by omega
    obtain ⟨hof, hsub, htake, hle⟩ := @narrow_without env wanted p t s i hs hlt
    rw [narrowEach]
    -- the hypothesis holds after the step, too
    have hrest := @ih _ hof hle fun need hneed ht hwanted => by
      have hstep := (hapart need (hneed.trans hsub) ht hwanted).2
      rwa [narrow_congr hmono hwanted hneed.subset] at hstep
    obtain ⟨-, hfinal⟩ := @narrowEach_cur env wanted p t _ i hof hle
    intro j hj hkept hne
    rw [take_add_one, getElem?_eq_getElem hlt, mem_append] at hj
    rcases hj with hj | hj
    · exact hrest j (htake ▸ hj) hkept hne
    · rw [Option.toList_some, mem_singleton] at hj
      intro hwanted
      rcases without_cases hs hlt with ⟨-, htarget⟩ | ⟨c, hc, -, htc, herase⟩
      · exact hne (hj.trans htarget)
      · -- all that is left without `j` was there when `j` was offered
        have hnodup : s.cur.kept.Nodup := hs.sorted.imp ne_of_lt
        have hle : (narrowEach env wanted i (narrow env wanted s (s.cur.without i))).cur.kept.erase j
            ⊆ c.kept := by
          rw [herase, ← hj]
          exact ((hfinal.trans hsub).erase j).subset
        have hwc : wanted c.kept := hmono _ _ hle hwanted
        have hcsub : c.kept.Sublist s.cur.kept := herase ▸ erase_sublist
        have hid := (hapart c.kept hcsub htc hwc).1 c hc (has_iff.2 (Subset.refl _))
        -- so `j` was removed
        rw [hc, narrow_of_wanted hwc hid] at hfinal hkept
        have hj' : j ∈ c.kept := hfinal.subset hkept
        rw [herase, ← hj] at hj'
        exact hnodup.not_mem_erase hj'

lemma narrowEach_of_not_wanted (hi : i ≤ s.cur.kept.length)
    (h : ∀ k < i, ¬ wanted (s.cur.kept.eraseIdx k)) : (narrowEach env wanted i s).cur = s.cur := by
  induction i generalizing s with
  | zero => rfl
  | succ i ih =>
    have hstep : (narrow env wanted s (s.cur.without i)).cur = s.cur := by
      unfold without
      split_ifs
      · rfl
      · rw [narrow_of_refused (.inl (h i (Nat.lt_succ_self i)))]
    rw [narrowEach, ih, hstep]
    · rw [hstep]
      omega
    · intro k hk
      rw [hstep]
      exact h k (by omega)

/-- When they are not told apart, there are calls such that one call too many is left when they
are asked for. -/
lemma exists_narrowEach_not_minimal (hs : s.cur.Of p (some t)) (hi : i ≤ s.cur.kept.length)
    (hapart : ¬ ToldApart env need i s) :
    ∃ need', need ⊆ need' ∧ need'.Sublist s.cur.kept ∧
      ∃ j ∈ (narrowEach env (has need') i s).cur.kept, j ≠ t ∧
        need' ⊆ (narrowEach env (has need') i s).cur.kept.erase j := by
  induction i generalizing s with
  | zero => exact absurd trivial hapart
  | succ i ih =>
    have hlt : i < s.cur.kept.length := by omega
    have hnodup : s.cur.kept.Nodup := hs.sorted.imp ne_of_lt
    by_cases hfirst : ∀ c ∈ s.cur.without i,
        has need c.kept → env.progID (c.sanitizeFix env).prog ∉ s.refused
    · have hrest : ¬ ToldApart env need i (narrow env (has need) s (s.cur.without i)) :=
        fun h => hapart ⟨hfirst, h⟩
      obtain ⟨hof, hsub, -, hle⟩ := @narrow_without env (has need) p t s i hs hlt
      obtain ⟨need', hneed, hkept, hj⟩ := ih hof hle hrest
      refine ⟨need', hneed, hkept.trans hsub, ?_⟩
      -- the step is the same when more calls are asked for
      rw [narrowEach, narrow_congr has_mono (has_iff.2 hneed) hkept.subset]
      exact hj
    · push Not at hfirst
      obtain ⟨c, hc, hneed, hid⟩ := hfirst
      rcases without_cases hs hlt with ⟨hnone, -⟩ | ⟨c', hc', hne, -, herase⟩
      · rw [hnone] at hc
        cases hc
      · rw [hc'] at hc
        cases hc
        refine ⟨c.kept, has_iff.1 hneed, herase ▸ erase_sublist, s.cur.kept[i], ?_⟩
        -- the program is refused, and after that nothing is wanted
        have hcur : (narrowEach env (has c.kept) (i + 1) s).cur = s.cur := by
          rw [narrowEach, hc', narrow_of_refused (.inr hid)]
          apply narrowEach_of_not_wanted (by show i ≤ s.cur.kept.length; omega)
          intro k hk hhas
          show False
          rw [has_iff] at hhas
          have hk' : k < s.cur.kept.length := by omega
          have hmem : s.cur.kept[k] ∈ c.kept := by
            rw [herase, hnodup.mem_erase_iff]
            refine ⟨fun heq => ?_, getElem_mem hk'⟩
            have := (hnodup.getElem_inj_iff).mp heq
            omega
          have hmem' := hhas hmem
          rw [← hnodup.erase_getElem k hk'] at hmem'
          exact hnodup.not_mem_erase hmem'
        rw [hcur]
        exact ⟨getElem_mem hlt, hne, herase ▸ Subset.refl _⟩

end Condition

/-! ## Runs -/

section Runs

variable {env : MinEnv} {f : List ℕ → Option ℕ → Bool} {p : Prog} {t : ℕ} {s s' s'' : State}

/-- The log goes with the state. -/
abbrev Follows (env : MinEnv) (log : Log Candidate String) (s : State) : Prop :=
  Tracks (fun t => env.progID t.prog) (fun t => t.prog.calls.length) log s

/-- The search goes from one state to another. -/
def Runs (env : MinEnv) (m : Minimizer Candidate) (s s' : State) : Prop :=
  ∀ log, Follows env log s → (m log).1 = s'.cur ∧ Follows env (m log).2 s'

lemma runs_pure : Runs env (pure s.cur) s s := fun _ h => ⟨rfl, h⟩

lemma Runs.bind {m : Minimizer Candidate} (hm : Runs env m s s')
    {g : Candidate → Minimizer Candidate} (hg : Runs env (g s'.cur) s' s'') :
    Runs env (m >>= g) s s'' := by
  intro log h
  obtain ⟨hcur, hlog⟩ := hm log h
  obtain ⟨hcur', hlog'⟩ := hg (m log).2 hlog
  rw [← hcur] at hcur' hlog'
  exact ⟨hcur', hlog'⟩

/-- Trying a proposal is a step of the search. -/
lemma runs_tryProposal (hid : env.CountsCalls) {proposal : Option Candidate}
    (h : ∀ c ∈ proposal, Candidate.Smaller p (some t) s.cur c) :
    Runs env (tryProposal (env.withPred f) s.cur proposal) s
      (narrow env (fun kept => f kept (some t)) s proposal) := by
  cases proposal with
  | none => exact runs_pure
  | some c =>
    have hc := h c rfl
    have htarget : (c.sanitizeFix env).target = some t := hc.of.target
    intro log hlog
    apply hlog.ask
    · intro asked
      show (asked ++ [c.sanitizeFix env]).getLast?.any _ = _
      rw [getLast?_concat, Option.any_some, htarget]
      rfl
    · exact fun a b hab => hid a.prog b.prog hab
    · simpa [sanitizeFix, Prog.mapCalls] using hc.length

lemma runs_removeEachCall (hid : env.CountsCalls) {i : ℕ} (hs : s.cur.Of p (some t))
    (hi : i ≤ s.cur.kept.length) :
    Runs env (removeEachCall (env.withPred f) i s.cur) s
      (narrowEach env (fun kept => f kept (some t)) i s) := by
  induction i generalizing s with
  | zero => exact runs_pure
  | succ i ih =>
    have hlt : i < s.cur.kept.length := by omega
    obtain ⟨hof, -, -, hle⟩ := @narrow_without env (fun kept => f kept (some t)) p t s i hs hlt
    rw [removeEachCall_succ, narrowEach]
    have htry := @runs_tryProposal env f p t s hid (s.cur.without i) fun c hc =>
      smaller_without hs (hs.length_kept ▸ hlt) hc
    exact htry.bind (ih hof hle)

lemma narrowStart_cur {wanted : List ℕ → Bool} (ht : t < p.calls.length) :
    let s1 := narrow env wanted (wholeState p t) (wholeState p t).cur.withoutTrailing
    (wholeState p t).cur.Of p (some t) ∧ s1.cur.Of p (some t) ∧
      (narrowStart env wanted p t).cur.Of p (some t) ∧
      s1.cur.kept.Sublist (List.range p.calls.length) ∧
      (narrowStart env wanted p t).cur.kept.Sublist s1.cur.kept := by
  have hof : (wholeState p t).cur.Of p (some t) := of_self (by simpa using ht)
  obtain ⟨hof1, hsub1⟩ := @narrow_cur env wanted p t (wholeState p t) _
    (fun c hc => smaller_withoutTrailing hof hc) hof
  obtain ⟨hof2, hsub2⟩ := @narrow_cur env wanted p t _ _
    (fun c hc => smaller_withoutUnrelated hof1 hc) hof1
  exact ⟨hof, hof1, hof2, hsub1, hsub2⟩

lemma narrowStart_congr {wanted : List ℕ → Bool}
    (hmono : ∀ kept kept', kept ⊆ kept' → wanted kept → wanted kept') (hneed : wanted need)
    (ht : t < p.calls.length) (hsub : need ⊆ (narrowStart env wanted p t).cur.kept) :
    narrowStart env (has need) p t = narrowStart env wanted p t := by
  obtain ⟨-, -, -, -, hstart⟩ := @narrowStart_cur env p t wanted ht
  have hsub1 := Subset.trans hsub hstart.subset
  show narrow env (has need) (narrow env (has need) _ _) _ = _
  rw [narrow_congr hmono hneed hsub1]
  exact narrow_congr hmono hneed hsub

lemma narrowCalls_eq {wanted : List ℕ → Bool} (ht : t < p.calls.length) :
    narrowCalls env wanted p t =
      narrowEach env wanted (narrowStart env wanted p t).cur.kept.length
        (narrowStart env wanted p t) := by
  obtain ⟨-, -, hof, -, -⟩ := @narrowStart_cur env p t wanted ht
  rw [hof.length_kept]
  rfl

lemma runs_removeCalls (hid : env.CountsCalls) (ht : t < p.calls.length) :
    Runs env (removeCalls (env.withPred f) (wholeState p t).cur) (wholeState p t)
      (narrowCalls env (fun kept => f kept (some t)) p t) := by
  obtain ⟨hof, hof1, hstart, -, -⟩ := @narrowStart_cur env p t (fun kept => f kept (some t)) ht
  unfold removeCalls
  rw [removeTrailingCalls_eq]
  refine (runs_tryProposal hid fun c hc => smaller_withoutTrailing hof hc).bind ?_
  rw [removeUnrelatedCalls_eq]
  refine (runs_tryProposal hid fun c hc => smaller_withoutUnrelated hof1 hc).bind ?_
  exact runs_removeEachCall hid hstart (Nat.le_of_eq hstart.length_kept.symm)

/-- `Minimize` returns what the narrowing of the program ends with. -/
lemma minimize_callsOnly (hid : env.CountsCalls) (ht : t < p.calls.length) :
    (minimize (env.withPred f) p t .minimizeCallsOnly .empty).1 =
      .ok (narrowCalls env (fun kept => f kept (some t)) p t).cur := by
  obtain ⟨hcur, -⟩ := @runs_removeCalls env f p t hid ht .empty (tracks_empty _)
  have hfrom : minimize (env.withPred f) p t .minimizeCallsOnly =
      minimizeFrom (env.withPred f) p (some t) .minimizeCallsOnly := by
    unfold minimize
    rw [if_neg (by omega), if_neg (by omega), Int.toNat_natCast]
  obtain ⟨-, r, hr, -⟩ := @keeps_minimizeFrom p (env.withPred f) (some t) (by simpa using ht)
    .minimizeCallsOnly .empty (by simp [Log.empty])
  rw [hfrom, ← hcur, hr]
  -- the check of the name at the end passes, so the result is the one of `removeCalls`
  have hrun : (minimizeFrom (env.withPred f) p (some t) .minimizeCallsOnly .empty).1 =
      .error "bad call index after minimization" ∨
      (minimizeFrom (env.withPred f) p (some t) .minimizeCallsOnly .empty).1 =
        .ok (removeCalls (env.withPred f) (wholeState p t).cur .empty).1 := by
    have hbind : ∀ {β : Type} (m : Minimizer Candidate) (g : Candidate → Minimizer β) log,
        ((m >>= g) log).1 = (g (m log).1 (m log).2).1 := fun _ _ _ => rfl
    unfold minimizeFrom minimizeCalls
    rw [hbind]
    simp only [ne_eq, not_true_eq_false, if_false, pure_bind]
    split_ifs
    · exact .inl rfl
    · exact .inr rfl
  rw [hr] at hrun
  rcases hrun with hrun | hrun
  · cases hrun
  · exact hrun

end Runs

/-! ## Minimal programs -/

/-- `Minimize` returns calls of the program in their order, with the target at the index that it
returns, and the predicate is false when any one more call is removed. It can only do so when the
program can be cloned, which it does before it removes a call. -/
def OneMinimal (env : MinEnv) (f : List ℕ → Option ℕ → Bool) (p : Prog) (t : ℕ) : Prop :=
  (2 ≤ p.calls.length → ∃ q, p.clone = .ok q) ∧
    ∃ r, (minimize (env.withPred f) p t .minimizeCallsOnly .empty).1 = .ok r ∧
      r.Of p (some t) ∧ ∀ j ∈ r.kept, j ≠ t → f (r.kept.erase j) (some t) = false

/-- Whatever monotone predicate is minimized for, nothing more can be removed in the end, exactly
when no result refers to itself and no program that has all calls that are needed, whichever these
are, is refused for its text. -/
theorem oneMinimal_iff_toldApart {env : MinEnv} (hid : env.CountsCalls) {p : Prog}
    (hvalid : p.validate = .ok ()) {t : ℕ} (ht : t < p.calls.length) :
    (∀ f, KeptMonotone f → OneMinimal env f p t) ↔
      (2 ≤ p.calls.length → ∀ r ∈ results p.calls, r.res ≠ some r.id) ∧
        ∀ need ∈ (List.range p.calls.length).sublists, t ∈ need →
          ToldApart env need (narrowStart env (has need) p t).cur.prog.calls.length
            (narrowStart env (has need) p t) := by
  have hclone := clone_isOk_iff hvalid
  constructor
  · intro h
    constructor
    · intro hlen
      exact hclone.mp ((h (fun _ _ => true) fun _ _ _ _ _ => rfl).1 hlen)
    · intro need hneed htneed
      by_contra hapart
      obtain ⟨-, -, hof, -, -⟩ := @narrowStart_cur env p t (has need) ht
      rw [← hof.length_kept] at hapart
      obtain ⟨need', hsub, hkept, j, hj, hne, herase⟩ :=
        exists_narrowEach_not_minimal hof (Nat.le_refl _) hapart
      -- the predicate that asks for these calls
      obtain ⟨-, r, hr, -, hmin⟩ := h (fun kept _ => has need' kept) fun kept kept' _ => has_mono _ _
      rw [minimize_callsOnly hid ht, Except.ok.injEq] at hr
      have hstart := narrowStart_congr has_mono (has_iff.2 hsub) ht hkept.subset
      rw [← hstart, ← narrowCalls_eq ht, hr] at hj herase
      have hfalse := hmin j hj hne
      rw [Bool.eq_false_iff, ne_eq, has_iff] at hfalse
      exact hfalse herase
  · intro ⟨hself, hapart⟩ f hmono
    refine ⟨fun hlen => hclone.mpr (hself hlen), _, minimize_callsOnly hid ht, ?_⟩
    obtain ⟨-, -, hof, hsub1, hsub⟩ := @narrowStart_cur env p t (fun kept => f kept (some t)) ht
    obtain ⟨hof', hsub'⟩ := @narrowEach_cur env (fun kept => f kept (some t)) p t _ _ hof
      (Nat.le_refl _)
    rw [← narrowCalls_eq ht] at hof' hsub'
    refine ⟨hof', fun j hj hne => ?_⟩
    have hmono' : ∀ kept kept', kept ⊆ kept' → f kept (some t) → f kept' (some t) :=
      fun kept kept' => hmono kept kept' (some t)
    have hmin := narrowEach_minimal hmono' hof (Nat.le_refl _) fun need hneed htneed hwanted => by
      have hsublist := mem_sublists.mpr (hneed.trans (hsub.trans hsub1))
      have hneed' := hapart need hsublist htneed
      rwa [narrowStart_congr hmono' hwanted ht hneed.subset, ← hof.length_kept] at hneed'
    rw [take_length, ← narrowCalls_eq ht] at hmin
    rw [Bool.eq_false_iff]
    exact hmin j (hsub'.subset hj) hj hne

/-! ## Calls without arguments -/

/-- A text with a letter for each call. -/
def lettersEnv : MinEnv :=
  { acceptAll with
    progID := fun p => String.ofList (p.calls.map fun c => Char.ofNat (97 + c.callMeta.id)) }

lemma countsCalls_lettersEnv : lettersEnv.CountsCalls := by
  intro p q h
  simpa [lettersEnv] using congrArg String.length h

lemma keptMonotone_contains (i : ℕ) : KeptMonotone fun kept _ => kept.contains i := by
  intro kept kept' _ hsub h
  rw [contains_iff_mem] at h ⊢
  exact hsub h

/-- Three different calls can be told apart by their text. -/
theorem oneMinimal_syncProg :
    syncProg.validate = .ok () ∧ OneMinimal lettersEnv (fun kept _ => kept.contains 0) syncProg 1 := by
  have hvalid : syncProg.validate = .ok () := by decide +kernel
  refine ⟨hvalid, ?_⟩
  apply (oneMinimal_iff_toldApart countsCalls_lettersEnv hvalid (by decide)).mpr
  · exact ⟨by decide +kernel, by decide +kernel⟩
  · exact keptMonotone_contains 0

/-- `sync()`, `sync()`, `sync()` -/
def syncThrice : Prog :=
  { target := syncTarget
    calls := List.replicate 3
      { callMeta := { id := 0, name := "sync" }, args := [], ret := none, props := .zero }
    callMeta_mem := by decide }

/-- The last call is needed. Without it the target is the second of two calls, and the answer is
no; without the first call it is the first of two calls, and the same text is not asked about. -/
theorem not_oneMinimal_syncThrice :
    syncThrice.validate = .ok () ∧ lettersEnv.CountsCalls ∧
      ∃ f, KeptMonotone f ∧ ¬ OneMinimal lettersEnv f syncThrice 1 := by
  refine ⟨by decide +kernel, countsCalls_lettersEnv, fun kept _ => kept.contains 2,
    keptMonotone_contains 2, ?_⟩
  rintro ⟨-, r, hr, -, hmin⟩
  have hkept : (minimize (lettersEnv.withPred fun kept _ => kept.contains 2) syncThrice (1 : ℕ)
      .minimizeCallsOnly .empty).1.toOption.map (·.kept) = some [0, 1, 2] := by
    decide +kernel
  rw [hr] at hkept
  have hkept : r.kept = [0, 1, 2] := Option.some.inj hkept
  have hfalse := hmin 0 (by simp [hkept]) (by decide)
  rw [hkept] at hfalse
  exact absurd hfalse (by decide)

end KConfuzz
