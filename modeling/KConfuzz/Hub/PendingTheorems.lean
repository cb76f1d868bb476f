import KConfuzz.Hub.StateTheorems

/-!
# The programs a manager is sent

The programs that are pending for a manager are sent in batches that end between two sequence
numbers (`cutRecords_spec`), each with the domain of a manager that has it (`inputDomain_eq_iff`).
-/

namespace KConfuzz.Hub

open Lib.FiniteMap Lib.StableSort Lib.Batch List

variable {hash : Input → Key} {st st' : State} {name n : Name} {key : Key} {rec : Record}
  {mgr : Manager} {entries records batch : List Entry} {more maxSeq : ℕ}

/-! ## Pending programs -/

/-- The program uses only the given calls. -/
def usable (calls : List CallName) (input : Input) : Bool :=
  match callSet input with
  | .error _ => false
  | .ok (progCalls, _) => managerSupportsAllCalls calls progCalls

lemma usable_congr {calls calls' : List CallName} (h : ∀ c, c ∈ calls ↔ c ∈ calls')
    (input : Input) : usable calls input = usable calls' input := by
  unfold usable
  split
  · rfl
  · unfold managerSupportsAllCalls
    simp only [h]

/-- A program that is to be sent to the manager. -/
def Manager.wants (mgr : Manager) (e : Entry) : Bool :=
  mgr.corpusSeq < e.2.seq ∧ e.1 ∉ mgr.corpus ∧ usable mgr.calls e.2.val = true

/-- The programs that are pending for the manager. -/
def State.pending (st : State) (mgr : Manager) : List Entry := st.corpus.entries.filter mgr.wants

/-- What is pending are the entries the manager wants. -/
lemma pendingLoop_eq (h : ∀ e ∈ entries, ∃ res, callSet e.2.val = .ok res) :
    pendingLoop mgr entries = .ok (entries.filter mgr.wants) := by
  induction entries with
  | nil => rfl
  | cons e entries ih =>
    obtain ⟨⟨calls, ncalls⟩, hcalls⟩ := h e (.head _)
    have husable : usable mgr.calls e.2.val = managerSupportsAllCalls mgr.calls calls := by
      simp only [usable, hcalls]
    have ih := ih fun e' he' => h e' (.tail _ he')
    by_cases hseq : mgr.corpusSeq ≥ e.2.seq
    · rw [pendingLoop, if_pos hseq, ih, filter_cons_of_neg]
      simp [Manager.wants, hseq]
    · by_cases hmem : e.1 ∈ mgr.corpus
      · rw [pendingLoop, if_neg hseq, if_pos hmem, ih, filter_cons_of_neg]
        simp [Manager.wants, hmem]
      · rw [pendingLoop, if_neg hseq, if_neg hmem, hcalls]
        dsimp only
        by_cases hsupports : managerSupportsAllCalls mgr.calls calls = true
        · rw [if_neg (by simpa using hsupports), ih, filter_cons_of_pos]
          · rfl
          · simp only [Manager.wants, husable, hsupports, decide_eq_true_eq]
            exact ⟨by omega, hmem, trivial⟩
        · rw [if_pos (by simpa using hsupports), ih, filter_cons_of_neg]
          simp [Manager.wants, husable, hsupports]

/-- A batch has all pending programs up to the number it ends with. -/
structure CutSpec (corpusSeq : ℕ) (records batch : List Entry) (more maxSeq : ℕ) : Prop where
  perm : batch.Perm (records.filter fun e => e.2.seq ≤ maxSeq)
  maxSeq_cases : maxSeq = corpusSeq ∨ ∃ e ∈ records, maxSeq = e.2.seq
  complete : more = 0 → ∀ e ∈ records, e.2.seq ≤ maxSeq

/-- A batch has all records up to the number it ends with. -/
lemma cutRecords_spec {corpusSeq : ℕ} (hseq : ∀ e ∈ records, e.2.seq ≤ corpusSeq)
    (hcap : records.length ≤ capRecords) (h : cutRecords corpusSeq records = (batch, more, maxSeq)) :
    CutSpec corpusSeq records batch more maxSeq := by
  have hall : CutSpec corpusSeq records records 0 corpusSeq :=
    { perm := by rw [filter_eq_self.mpr (by simpa using hseq)]
      maxSeq_cases := .inl rfl
      complete := fun _ => hseq }
  unfold cutRecords at h
  by_cases hlen : records.length ≤ maxRecords
  · rw [if_pos hlen] at h
    cases h
    exact hall
  · rw [if_neg hlen] at h
    have hcompares : Compares (fun a b : Entry => decide (a.2.seq < b.2.seq)) fun e => e.2.seq :=
      fun a b => by simp
    have hperm := sliceStable_perm (fun a b : Entry => decide (a.2.seq < b.2.seq)) records
    have hsorted := hcompares.sortedBy_sliceStable records
    generalize sliceStable _ records = sorted at h hperm hsorted
    dsimp only at h
    rw [if_neg (by rw [hperm.length_eq]; omega)] at h
    split at h
    · rename_i hnone
      rw [getElem?_eq_none_iff, hperm.length_eq] at hnone
      exact absurd hnone (by omega)
    · rename_i rec hrec
      cases h
      have htake := take_cutAfter hsorted hrec
      have hmem : rec ∈ records := hperm.mem_iff.mp (mem_of_getElem? hrec)
      refine ⟨?_, .inr ⟨rec, hmem, rfl⟩, ?_⟩
      · rw [htake]
        exact hperm.filter _
      · intro hmore e he
        -- nothing is left behind the cut
        rw [take_of_length_le (by omega)] at htake
        have he' : e ∈ sorted.filter fun e => e.2.seq ≤ rec.2.seq := by
          rw [← htake]
          exact hperm.mem_iff.mpr he
        simpa using (mem_filter.mp he').2

lemma wants_iff {e : Entry} : mgr.wants e = true ↔
    mgr.corpusSeq < e.2.seq ∧ e.1 ∉ mgr.corpus ∧ usable mgr.calls e.2.val = true := by
  rw [Manager.wants, decide_eq_true_eq]

/-- A batch in terms of the corpus. -/
structure BatchSpec (st : State) (mgr : Manager) (batch : List Entry) (more maxSeq : ℕ) :
    Prop where
  perm : batch.Perm (st.corpus.entries.filter fun e => decide (e.2.seq ≤ maxSeq) && mgr.wants e)
  ge : mgr.corpusSeq ≤ maxSeq
  le : maxSeq ≤ st.corpusSeq
  complete : more = 0 → ∀ e ∈ st.pending mgr, e.2.seq ≤ maxSeq

/-- When all records of the corpus are programs, finding the pending ones does not fail. -/
lemma batch_spec (order : Shuffle Entry)
    (hrecord : ∀ e ∈ st.corpus.entries, (∃ res, callSet e.2.val = .ok res) ∧
      e.2.seq ≤ st.corpusSeq)
    (hmgr : mgr.corpusSeq ≤ st.corpusSeq) (hcap : (st.pending mgr).length ≤ capRecords) :
    ∃ records batch more maxSeq, pendingLoop mgr (order.order st.corpus.entries) = .ok records ∧
      cutRecords st.corpusSeq records = (batch, more, maxSeq) ∧
      BatchSpec st mgr batch more maxSeq := by
  have hperm : (order.order st.corpus.entries).Perm st.corpus.entries := order.perm _
  generalize order.order st.corpus.entries = entries at hperm ⊢
  have hpending : (entries.filter mgr.wants).Perm (st.pending mgr) := hperm.filter mgr.wants
  have hloop : pendingLoop mgr entries = .ok (entries.filter mgr.wants) :=
    pendingLoop_eq fun e he => (hrecord e (hperm.mem_iff.mp he)).1
  generalize entries.filter mgr.wants = records at hpending hloop
  have hmem : ∀ e ∈ records, e ∈ st.corpus.entries ∧ mgr.wants e = true :=
    fun e he => mem_filter.mp (hpending.mem_iff.mp he)
  rcases hcut : cutRecords st.corpusSeq records with ⟨batch, more, maxSeq⟩
  have hspec : CutSpec st.corpusSeq records batch more maxSeq := by
    apply cutRecords_spec _ _ hcut
    · exact fun e he => (hrecord e (hmem e he).1).2
    · rw [hpending.length_eq]
      exact hcap
  refine ⟨records, batch, more, maxSeq, hloop, hcut, ?_, ?_, ?_, ?_⟩
  · rw [← filter_filter]
    exact hspec.perm.trans (hpending.filter _)
  · rcases hspec.maxSeq_cases with heq | ⟨e, he, heq⟩
    · omega
    · have hlt := (wants_iff.1 (hmem e he).2).1
      omega
  · rcases hspec.maxSeq_cases with heq | ⟨e, he, heq⟩
    · omega
    · have hle := (hrecord e (hmem e he).1).2
      omega
  · intro hmore e he
    exact hspec.complete hmore e (hpending.mem_iff.mpr he)

/-! ## Domains -/

section Domain

variable {self domain : Domain} {mgrs : List Manager}

/-- A program has the domain of the manager itself if one of the managers of that domain has it. -/
lemma domainLoop_eq_iff (h : domain ≠ self ∨ domain = "" ∧ ∃ mgr ∈ mgrs, key ∈ mgr.corpus) :
    domainLoop key self domain mgrs = self ↔
      ∃ mgr ∈ mgrs, mgr.domain = self ∧ key ∈ mgr.corpus := by
  induction mgrs generalizing domain with
  | nil => simpa [domainLoop] using h
  | cons mgr mgrs ih =>
    rw [exists_mem_cons_iff] at h ⊢
    rw [domainLoop]
    by_cases hkey : key ∈ mgr.corpus
    · by_cases hsame : mgr.domain = self
      · rw [if_neg (fun hc => hc.1 hsame), if_neg (not_not.mpr hkey), if_pos hsame]
        exact iff_of_true hsame (.inl ⟨hsame, hkey⟩)
      · rw [or_iff_right fun hc => hsame hc.1, if_neg (not_not.mpr hkey), if_neg hsame]
        split
        · rename_i hskip
          exact ih (h.imp_right fun hempty => absurd hempty.1 hskip.2)
        · exact ih (.inl hsame)
    · rw [or_iff_right fun hc => hkey hc.2, if_pos hkey, ite_self]
      exact ih (h.imp_right fun hempty => ⟨hempty.1, hempty.2.resolve_left hkey⟩)

end Domain

/-- An input is of the manager's domain if a manager of this domain has it. -/
lemma inputDomain_eq_iff (st : State) (orders : Orders) (self : Domain) (h : st.Held key) :
    st.inputDomain orders key self = self ↔
      ∃ n, ∃ mgr ∈ st.managers.lookup n, mgr.domain = self ∧ key ∈ mgr.corpus := by
  have hmem : ∀ mgr, mgr ∈ ((orders.managers key).order st.managers.entries).map Sigma.snd ↔
      ∃ n, mgr ∈ st.managers.lookup n := by
    intro mgr
    simp only [mem_map, (orders.managers key).mem_order]
    constructor
    · intro ⟨e, he, heq⟩
      exact ⟨e.1, heq ▸ AList.mem_lookup_iff.mpr he⟩
    · intro ⟨n, hmgr⟩
      exact ⟨⟨n, mgr⟩, AList.mem_lookup_iff.mp hmgr, rfl⟩
  rw [State.inputDomain, domainLoop_eq_iff]
  · constructor
    · intro ⟨mgr, hmgr, hsame⟩
      obtain ⟨n, hn⟩ := (hmem mgr).mp hmgr
      exact ⟨n, mgr, hn, hsame⟩
    · intro ⟨n, mgr, hmgr, hsame⟩
      exact ⟨mgr, (hmem mgr).mpr ⟨n, hmgr⟩, hsame⟩
  · by_cases hself : self = ""
    · obtain ⟨n, mgr, hmgr, hkey⟩ := h
      exact .inr ⟨rfl, mgr, (hmem mgr).mpr ⟨n, hmgr⟩, hkey⟩
    · exact .inl (Ne.symm hself)

end KConfuzz.Hub
