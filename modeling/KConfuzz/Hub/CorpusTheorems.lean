import KConfuzz.Hub.PendingTheorems

/-!
# Programs are delivered once

A manager has been sent the programs whose number is at most its own, apart from those it holds or
cannot run. A program gets its number when it enters the corpus of the hub, and the number is
larger than that of every manager, so nobody counts as having been sent it. A `Sync` sends the
programs up to some number, all of them when it reports that no more are pending.
-/

namespace KConfuzz.Hub

open Lib.FiniteMap List State

variable {hash : Input → Key} {callsOf : Name → List CallName} {st st' : State} {name n m : Name}
  {key : Key} {rec : Record} {mgr : Manager} {p : Input} {num : ℕ} {add : List Input} {del : List Key}

/-! ## Deliveries -/

/-- The program is in the corpus of the hub. -/
def State.hasInput (hash : Input → Key) (st : State) (p : Input) : Bool :=
  (st.corpus.lookup (hash p)).any fun rec => rec.val = p

lemma hasInput_iff : st.hasInput hash p = true ↔ ∃ rec ∈ st.corpus.lookup (hash p), rec.val = p := by
  simp [hasInput, Option.any_eq_true]

/-- The number of times the program `p` has been returned to the manager `m` since the program
entered the corpus of the hub or since the last fresh `Connect` of the manager, whichever is later;
`num` is the number before the operation. A `Sync` that deletes and adds lets a program leave and
enter again. -/
def returnedBy (hash : Input → Key) (m : Name) (p : Input) (st : State) (num : ℕ) : Op → ℕ
  | .connect name _ fresh _ _ =>
    if fresh = true ∧ name = m then 0 else if st.hasInput hash p then num else 0
  | .sync name add del orders =>
    match (st.sync hash name add del orders).2 with
    | .error _ => num
    | .ok (_, progs, _) =>
      (if (st.deleteInputs name del).hasInput hash p then num else 0) +
        if name = m then progs.countP fun input => input.prog = p else 0
  | _ => num

/-- The number after a list of operations. -/
def returnedTo (hash : Input → Key) (m : Name) (p : Input) (st : State) (num : ℕ) : List Op → ℕ
  | [] => num
  | op :: ops => returnedTo hash m p (step hash st op) (returnedBy hash m p st num op) ops

/-- The manager has the key in its corpus. -/
def State.Holds (st : State) (name : Name) (key : Key) : Prop :=
  ∃ mgr ∈ st.managers.lookup name, key ∈ mgr.corpus

/-- The manager has the key in no state of the run. -/
def NeverHolds (hash : Input → Key) (name : Name) (key : Key) (st : State) : List Op → Prop
  | [] => ¬ st.Holds name key
  | op :: ops => ¬ st.Holds name key ∧ NeverHolds hash name key (step hash st op) ops

/-! ## The invariant -/

/-- What holds between operations, and in the middle of them. -/
structure Inv (hash : Input → Key) (callsOf : Name → List CallName) (st : State) : Prop where
  covers : ∀ key, st.Held key → key ∈ st.corpus
  record : ∀ key, ∀ rec ∈ st.corpus.lookup key, key = hash rec.val ∧
    (∃ res, callSet rec.val = .ok res) ∧ 0 < rec.seq ∧ rec.seq ≤ st.corpusSeq
  manager : ∀ n, ∀ mgr ∈ st.managers.lookup n,
    mgr.corpusSeq ≤ st.corpusSeq ∧ ∀ c, c ∈ mgr.calls ↔ c ∈ callsOf n
  dir : ∀ n ∈ st.dir.managers, n ∈ st.managers

/-- The number of deliveries is decided by the numbers of the program and of the manager. -/
structure Counted (hash : Input → Key) (m : Name) (p : Input) (num : ℕ) (st : State) : Prop where
  sent : ∀ mgr ∈ st.managers.lookup m, ∀ rec ∈ st.corpus.lookup (hash p), rec.val = p →
    usable mgr.calls p = true → num = if rec.seq ≤ mgr.corpusSeq then 1 else 0
  unknown : m ∉ st.managers → num = 0

/-- Only the corpora have to be looked at when nothing else changes. -/
lemma Inv.change (hinv : Inv hash callsOf st) (honly : OnlyCorpora st st')
    (hseq : st.corpusSeq ≤ st'.corpusSeq) (hcovers : ∀ key, st'.Held key → key ∈ st'.corpus)
    (hrecord : ∀ key, ∀ rec ∈ st'.corpus.lookup key, key = hash rec.val ∧
      (∃ res, callSet rec.val = .ok res) ∧ 0 < rec.seq ∧ rec.seq ≤ st'.corpusSeq) :
    Inv hash callsOf st' where
  covers := hcovers
  record := hrecord
  manager n mgr hmgr := by
    obtain ⟨corpus, hold⟩ := honly.symm.exists_manager hmgr
    obtain ⟨hle, hcalls⟩ := hinv.manager n _ hold
    exact ⟨hle.trans hseq, hcalls⟩
  dir n hn := honly.mem_managers (hinv.dir n ((mem_iff_of_map_lookup (honly.files n)).mp hn))

lemma Counted.change (h : Counted hash m p num st) (honly : OnlyCorpora st st')
    (hrec : ∀ rec ∈ st'.corpus.lookup (hash p), rec.val = p → rec ∈ st.corpus.lookup (hash p)) :
    Counted hash m p num st' where
  sent mgr hmgr rec hrec' hval husable := by
    obtain ⟨corpus, hold⟩ := honly.symm.exists_manager hmgr
    exact h.sent _ hold rec (hrec rec hrec' hval) hval husable
  unknown hm := h.unknown fun hmem => hm (honly.mem_managers hmem)

/-! ## Connecting -/

/-- Only the named manager changes. -/
lemma findOrCreate_spec (st : State) (name : Name) (hdir : ∀ n ∈ st.dir.managers, n ∈ st.managers) :
    let r := st.findOrCreate name
    r.1.corpus = st.corpus ∧ r.1.corpusSeq = st.corpusSeq ∧
    (∀ n, n ≠ name → r.1.managers.lookup n = st.managers.lookup n) ∧
    (r.2 ∈ st.managers.lookup name ∨ name ∉ st.managers ∧ r.2.corpusSeq = 0) ∧
    ∀ n ∈ r.1.dir.managers, n = name ∨ n ∈ st.dir.managers := by
  intro r
  unfold r findOrCreate
  split
  · rename_i mgr hmgr
    exact ⟨rfl, rfl, fun _ _ => rfl, .inl hmgr, fun _ hn => .inr hn⟩
  · rename_i hnone
    have hname : name ∉ st.managers := AList.lookup_eq_none.mp hnone
    have hfiles : st.dir.managers.lookup name = none :=
      AList.lookup_eq_none.mpr fun hmem => hname (hdir name hmem)
    refine ⟨rfl, ?_, fun n hn => AList.lookup_insert_ne hn, .inr ⟨hname, ?_⟩,
      fun n hn => (AList.mem_insert _).mp hn⟩
    · show max st.corpusSeq (loadSeqFile _) = st.corpusSeq
      rw [hfiles]
      exact Nat.max_zero _
    · show loadSeqFile _ = 0
      rw [hfiles]
      rfl

/-- What `Connect` has done before it takes the corpus of the manager. -/
structure Registered (name : Name) (fresh : Bool) (calls : List CallName) (st st' : State) :
    Prop where
  corpus : st'.corpus = st.corpus
  corpusSeq : st'.corpusSeq = st.corpusSeq
  others : ∀ n, n ≠ name → st'.managers.lookup n = st.managers.lookup n
  this : ∃ mgr ∈ st'.managers.lookup name, mgr.corpus = ∅ ∧ mgr.calls = calls ∧
    ((fresh = true ∨ name ∉ st.managers) ∧ mgr.corpusSeq = 0 ∨
      fresh = false ∧ ∃ old ∈ st.managers.lookup name, mgr.corpusSeq = old.corpusSeq)
  dir : ∀ n ∈ st'.dir.managers, n = name ∨ n ∈ st.dir.managers

/-- What connecting does to the state. -/
lemma registered_register (domain : Domain) (fresh : Bool) (calls : List CallName)
    (hdir : ∀ n ∈ st.dir.managers, n ∈ st.managers) :
    Registered name fresh calls st (st.register name domain fresh calls) := by
  obtain ⟨hcorpus, hseq, hothers, hmgr, hdirs⟩ := findOrCreate_spec st name hdir
  refine ⟨hcorpus, hseq, ?_, ?_, ?_⟩
  · intro n hn
    exact (AList.lookup_insert_ne hn).trans (hothers n hn)
  · refine ⟨_, AList.lookup_insert _, rfl, rfl, ?_⟩
    cases fresh with
    | true => exact .inl ⟨.inl rfl, rfl⟩
    | false =>
      rcases hmgr with hold | ⟨hnew, hzero⟩
      · exact .inr ⟨rfl, _, hold, rfl⟩
      · exact .inl ⟨.inr hnew, hzero⟩
  · intro n hn
    exact hdirs n (mem_modify.1 hn)

section

variable {fresh : Bool} {calls : List CallName} (h : Registered name fresh calls st st')
  (hinv : Inv hash callsOf st) (hcalls : ∀ c, c ∈ calls ↔ c ∈ callsOf name)

include h hinv hcalls

/-- Connecting keeps the invariant. -/
lemma Registered.inv : Inv hash callsOf st' := by
  obtain ⟨mgr, hmgr, hempty, hmgrCalls, hmgrSeq⟩ := h.this
  exact
    { covers := by
        intro key ⟨n, mgr', hmgr', hkey⟩
        rw [h.corpus]
        by_cases hn : n = name
        · -- the corpus of the manager has been removed
          subst hn
          cases Option.mem_unique hmgr hmgr'
          rw [hempty] at hkey
          exact absurd hkey (AList.notMem_empty key)
        · exact hinv.covers key ⟨n, mgr', h.others n hn ▸ hmgr', hkey⟩
      record := by
        rw [h.corpus, h.corpusSeq]
        exact hinv.record
      manager := by
        intro n mgr' hmgr'
        rw [h.corpusSeq]
        by_cases hn : n = name
        · subst hn
          cases Option.mem_unique hmgr hmgr'
          refine ⟨?_, hmgrCalls ▸ hcalls⟩
          rcases hmgrSeq with ⟨_, hzero⟩ | ⟨_, old, hold, heq⟩
          · omega
          · rw [heq]
            exact (hinv.manager n old hold).1
        · exact hinv.manager n mgr' (h.others n hn ▸ hmgr')
      dir := by
        intro n hn
        by_cases hname : n = name
        · exact hname ▸ mem_of_lookup hmgr
        · obtain ⟨old, hold⟩ := mem_iff_exists_lookup.1
            (hinv.dir n ((h.dir n hn).resolve_left hname))
          exact mem_of_lookup ((h.others n hname).symm ▸ hold) }

/-- A fresh manager starts counting anew. -/
lemma Registered.counted (hcounted : Counted hash m p num st) :
    Counted hash m p (if fresh = true ∧ name = m then 0 else num) st' := by
  obtain ⟨mgr, hmgr, _, hmgrCalls, hmgrSeq⟩ := h.this
  by_cases hm : m = name
  · subst hm
    refine ⟨?_, fun hnone => absurd (mem_of_lookup hmgr) hnone⟩
    intro mgr' hmgr' rec hrec hval husable
    cases Option.mem_unique hmgr hmgr'
    rw [h.corpus] at hrec
    rcases hmgrSeq with ⟨hnew, hzero⟩ | ⟨hfresh, old, hold, heq⟩
    · -- the manager is about to get everything
      have hpos := (hinv.record _ rec hrec).2.2.1
      have hahead : ¬ rec.seq ≤ mgr.corpusSeq := by omega
      rw [if_neg hahead]
      rcases hnew with hfresh | hnew
      · rw [if_pos ⟨hfresh, rfl⟩]
      · rw [hcounted.unknown hnew]
        exact ite_self 0
    · rw [if_neg (by simp [hfresh]), heq]
      apply hcounted.sent old hold rec hrec hval
      rw [hmgrCalls, usable_congr hcalls] at husable
      rw [usable_congr (hinv.manager m old hold).2]
      exact husable
  · rw [if_neg fun hc => hm hc.2.symm]
    have hothers := h.others m hm
    refine ⟨?_, fun hnone => hcounted.unknown ?_⟩
    · rw [hothers, h.corpus]
      exact hcounted.sent
    · rw [← AList.lookup_eq_none, ← hothers]
      exact AList.lookup_eq_none.mpr hnone

end

/-! ## Adding, deleting and purging -/

lemma Inv.addInputs (hinv : Inv hash callsOf st) (name : Name) (inputs : List Input) :
    Inv hash callsOf (st.addInputs hash name inputs) := by
  have hadded := added_addInputs hash st name inputs
  apply hinv.change (.addInputs hash st name inputs) hadded.corpusSeq
  · intro key hkey
    rcases hadded.held key hkey with hold | hnew
    · exact hadded.mem_corpus (hinv.covers key hold)
    · exact hnew
  · intro key rec hrec
    rcases hadded.fresh key rec hrec with hold | ⟨_, hseq, hle, hhash, hcalls⟩
    · obtain ⟨hhash, hcalls, hpos, hle⟩ := hinv.record key rec hold
      exact ⟨hhash, hcalls, hpos, hle.trans hadded.corpusSeq⟩
    · exact ⟨hhash, hcalls, by omega, hle⟩

/-- Adding an input again changes no count. -/
lemma Counted.addInputs (hcounted : Counted hash m p num st) (hinv : Inv hash callsOf st)
    (name : Name) (inputs : List Input) :
    Counted hash m p (if st.hasInput hash p then num else 0) (st.addInputs hash name inputs) := by
  have hadded := added_addInputs hash st name inputs
  have honly := OnlyCorpora.addInputs hash st name inputs
  by_cases hin : st.hasInput hash p = true
  · rw [if_pos hin]
    apply hcounted.change honly
    intro rec hrec hval
    obtain ⟨old, hold, _⟩ := hasInput_iff.1 hin
    have heq : old = rec := Option.mem_unique (hadded.kept _ old hold) hrec
    exact heq ▸ hold
  · rw [if_neg hin]
    refine ⟨?_, fun _ => rfl⟩
    intro mgr hmgr rec hrec hval husable
    rcases hadded.fresh _ rec hrec with hold | ⟨_, hseq, _⟩
    · exact absurd (hasInput_iff.2 ⟨rec, hold, hval⟩) hin
    · obtain ⟨corpus, hmgrOld⟩ := honly.symm.exists_manager hmgr
      have hle : mgr.corpusSeq ≤ st.corpusSeq := (hinv.manager m _ hmgrOld).1
      rw [if_neg (by omega)]

lemma Inv.purgeCorpus (hinv : Inv hash callsOf st) : Inv hash callsOf st.purgeCorpus := by
  apply hinv.change (.purgeCorpus st) le_rfl
  · exact fun key => (purgeCorpus_keys hinv.covers key).mpr
  · exact fun key rec hrec => hinv.record key rec ((mem_lookup_purgeCorpus st key rec).mp hrec).1

lemma Counted.purgeCorpus (hcounted : Counted hash m p num st) :
    Counted hash m p num st.purgeCorpus :=
  hcounted.change (.purgeCorpus st) fun rec hrec _ =>
    ((mem_lookup_purgeCorpus st _ rec).mp hrec).1

lemma Inv.deleteInputs (hinv : Inv hash callsOf st)
    (hkeys : ∀ key, key ∈ st.corpus ↔ st.Held key) (name : Name) (del : List Key) :
    Inv hash callsOf (st.deleteInputs name del) := by
  have hdeleted := deleted_deleteInputs st name del
  apply hinv.change (.deleteInputs st name del) hdeleted.corpusSeq.ge
  · exact fun key => (hdeleted.keys hkeys key).mpr
  · intro key rec hrec
    rw [hdeleted.corpusSeq]
    exact hinv.record key rec (hdeleted.corpus key rec hrec)

lemma Counted.deleteInputs (hcounted : Counted hash m p num st) (name : Name) (del : List Key) :
    Counted hash m p num (st.deleteInputs name del) :=
  hcounted.change (.deleteInputs st name del) fun rec hrec _ =>
    (deleted_deleteInputs st name del).corpus _ rec hrec

/-! ## Sending -/

/-- A program is in the corpus once. -/
lemma countP_entries (hhash : ∀ key, ∀ rec ∈ st.corpus.lookup key, key = hash rec.val)
    (hrec : rec ∈ st.corpus.lookup (hash p)) (hval : rec.val = p) (q : Entry → Bool) :
    (st.corpus.entries.filter q).countP (fun e => e.2.val = p) =
      if q ⟨hash p, rec⟩ then 1 else 0 := by
  have hsame : ∀ e ∈ st.corpus.entries, e.1 = hash p → e = ⟨hash p, rec⟩ := by
    intro e he hkey
    have hlookup : e.2 ∈ st.corpus.lookup e.1 := AList.mem_lookup_iff.mpr he
    rw [hkey] at hlookup
    exact Sigma.ext hkey (heq_of_eq (Option.mem_unique hlookup hrec))
  have hentry : ∀ e ∈ st.corpus.entries, e.2.val = p ↔ e = ⟨hash p, rec⟩ := by
    intro e he
    constructor
    · exact fun hp => hsame e he (hp ▸ hhash e.1 e.2 (AList.mem_lookup_iff.mpr he))
    · intro heq
      rw [heq]
      exact hval
  have hone : st.corpus.entries.countP (fun e => e.1 = hash p) = 1 := by
    have hcount := count_eq_one_of_mem st.corpus.keys_nodup (AList.mem_keys.mp (mem_of_lookup hrec))
    rw [AList.keys, keys, count, countP_map] at hcount
    rw [← hcount]
    exact countP_congr fun e _ => by simp
  rw [countP_filter]
  by_cases hq : q ⟨hash p, rec⟩ = true
  · rw [if_pos hq, ← hone]
    refine countP_congr fun e he => ?_
    simp only [Bool.and_eq_true, decide_eq_true_eq, hentry e he]
    constructor
    · exact fun h => h.1 ▸ rfl
    · intro hkey
      have heq := hsame e he hkey
      exact ⟨heq, heq ▸ hq⟩
  · rw [if_neg hq, countP_eq_zero]
    intro e he
    simp only [Bool.and_eq_true, decide_eq_true_eq, hentry e he]
    exact fun h => hq (h.1 ▸ h.2)

/-- What a `Sync` does once the programs are deleted and added: the manager is sent the programs
it wants up to the number `maxSeq`. -/
structure Sent (hash : Input → Key) (st st' : State) (name : Name) (mgr : Manager)
    (orders : Orders) (progs : List HubInput) (more maxSeq : ℕ) : Prop where
  corpus : st'.corpus = st.corpus
  corpusSeq : st'.corpusSeq = st.corpusSeq
  managers : ∀ n, st'.managers.lookup n =
    if n = name then some { mgr with corpusSeq := maxSeq } else st.managers.lookup n
  dir : ∀ n, n ∈ st'.dir.managers → n ∈ st.dir.managers
  ge : mgr.corpusSeq ≤ maxSeq
  le : maxSeq ≤ st.corpusSeq
  count : ∀ p, ∀ rec ∈ st.corpus.lookup (hash p), rec.val = p → hash p ∉ mgr.corpus →
    usable mgr.calls p = true →
    progs.countP (fun input => input.prog = p) =
      if mgr.corpusSeq < rec.seq ∧ rec.seq ≤ maxSeq then 1 else 0
  complete : more = 0 → ∀ key, ∀ rec ∈ st.corpus.lookup key, key ∉ mgr.corpus →
    usable mgr.calls rec.val = true → rec.seq ≤ maxSeq
  tags : ∀ input ∈ progs, ∃ key, ∃ rec ∈ st.corpus.lookup key, input.prog = rec.val ∧
    input.domain = st.inputDomain orders key mgr.domain

/-- What a poll sends, and where it leaves the manager. -/
lemma sent_pendingInputs (hinv : Inv hash callsOf st) (hmgr : mgr ∈ st.managers.lookup name)
    (orders : Orders) (hcap : (st.pending mgr).length ≤ capRecords) :
    ∃ st' progs more maxSeq, st.pendingInputs name mgr orders = (st', .ok (progs, more)) ∧
      Sent hash st st' name mgr orders progs more maxSeq := by
  unfold pendingInputs
  by_cases hdone : mgr.corpusSeq = st.corpusSeq
  · rw [if_pos hdone]
    refine ⟨st, [], 0, mgr.corpusSeq, rfl, rfl, rfl, ?_, fun _ h => h, le_rfl, hdone.le, ?_, ?_, ?_⟩
    · intro n
      split
      · rename_i hn
        rw [hn]
        exact hmgr
      · rfl
    · intro p rec hrec hval _ _
      rw [if_neg (by omega)]
      rfl
    · intro _ key rec hrec _ _
      rw [hdone]
      exact (hinv.record key rec hrec).2.2.2
    · intro input hinput
      cases hinput
  · rw [if_neg hdone]
    have hrecord : ∀ e ∈ st.corpus.entries, (∃ res, callSet e.2.val = .ok res) ∧
        e.2.seq ≤ st.corpusSeq := by
      intro e he
      obtain ⟨_, hcalls, _, hle⟩ := hinv.record e.1 e.2 (AList.mem_lookup_iff.mpr he)
      exact ⟨hcalls, hle⟩
    obtain ⟨records, batch, more, maxSeq, hloop, hcut, hspec⟩ :=
      batch_spec orders.records hrecord (hinv.manager name mgr hmgr).1 hcap
    rw [hloop]
    dsimp only
    rw [hcut]
    refine ⟨_, _, more, maxSeq, rfl, rfl, rfl, ?_, fun n hn => mem_modify.1 hn, hspec.ge, hspec.le,
      ?_, ?_, ?_⟩
    · intro n
      show (modify st.managers name _).lookup n = _
      rw [lookup_modify]
      split
      · rename_i hn
        rw [hn, Option.mem_def.mp hmgr]
        rfl
      · rfl
    · intro p rec hrec hval hkey husable
      rw [countP_map]
      show batch.countP (fun e => e.2.val = p) = _
      rw [hspec.perm.countP_eq,
        countP_entries (fun key rec hrec => (hinv.record key rec hrec).1) hrec hval]
      have hwants : mgr.wants ⟨hash p, rec⟩ = true ↔ mgr.corpusSeq < rec.seq := by
        rw [wants_iff]
        exact ⟨fun h => h.1, fun h => ⟨h, hkey, hval ▸ husable⟩⟩
      simp only [Bool.and_eq_true, decide_eq_true_eq, hwants, and_comm]
    · intro hmore key rec hrec hkey husable
      by_cases hseq : mgr.corpusSeq < rec.seq
      · apply hspec.complete hmore ⟨key, rec⟩
        exact mem_filter.mpr ⟨AList.mem_lookup_iff.mp hrec, wants_iff.2 ⟨hseq, hkey, husable⟩⟩
      · have hge := hspec.ge
        omega
    · refine forall_mem_map.mpr fun e he => ?_
      have hmem := (mem_filter.mp (hspec.perm.mem_iff.mp he)).1
      exact ⟨e.1, e.2, AList.mem_lookup_iff.mpr hmem, rfl, rfl⟩

namespace Sent

variable {orders : Orders} {progs : List HubInput} {more maxSeq : ℕ}

section

variable (h : Sent hash st st' name mgr orders progs more maxSeq)
  (hmgr : mgr ∈ st.managers.lookup name)

include h hmgr

/-- Sending changes nothing but the number of the manager. -/
lemma exists_manager_iff {P : Manager → Prop}
    (hP : ∀ mgr seq, P { mgr with corpusSeq := seq } ↔ P mgr) (n : Name) :
    (∃ mgr ∈ st'.managers.lookup n, P mgr) ↔ ∃ mgr ∈ st.managers.lookup n, P mgr := by
  rw [h.managers]
  split
  · rename_i hn
    rw [hn, Option.mem_def.mp hmgr]
    simp [hP]
  · rfl

lemma holds_iff (n : Name) (key : Key) : st'.Holds n key ↔ st.Holds n key :=
  h.exists_manager_iff hmgr (fun _ _ => Iff.rfl) n

lemma held_iff (key : Key) : st'.Held key ↔ st.Held key :=
  exists_congr fun n => h.holds_iff hmgr n key

lemma mem_managers_iff : n ∈ st'.managers ↔ n ∈ st.managers := by
  rw [← AList.lookup_isSome, ← AList.lookup_isSome, h.managers]
  split
  · rename_i hn
    rw [hn, Option.mem_def.mp hmgr]
    rfl
  · rfl

/-- A poll keeps the invariant. -/
lemma inv (hinv : Inv hash callsOf st) : Inv hash callsOf st' where
  covers key hkey := by
    rw [h.corpus]
    exact hinv.covers key ((h.held_iff hmgr key).mp hkey)
  record := by
    rw [h.corpus, h.corpusSeq]
    exact hinv.record
  manager n mgr' hmgr' := by
    rw [h.managers] at hmgr'
    rw [h.corpusSeq]
    split at hmgr'
    · rename_i hn
      cases hmgr'
      exact ⟨h.le, hn ▸ (hinv.manager name mgr hmgr).2⟩
    · exact hinv.manager n mgr' hmgr'
  dir n hn := (h.mem_managers_iff hmgr).mpr (hinv.dir n (h.dir n hn))

/-- A program is counted when the number of the manager passes it. -/
lemma counted (hcounted : Counted hash m p num st) (hnever : ¬ st.Holds m (hash p)) :
    Counted hash m p
      (num + if name = m then progs.countP fun input => input.prog = p else 0) st' := by
  refine ⟨?_, ?_⟩
  · intro mgr' hmgr' rec hrec hval husable
    rw [h.managers] at hmgr'
    rw [h.corpus] at hrec
    by_cases hm : m = name
    · subst hm
      rw [if_pos rfl] at hmgr' ⊢
      cases hmgr'
      have hkey : hash p ∉ mgr.corpus := fun hkey => hnever ⟨mgr, hmgr, hkey⟩
      rw [hcounted.sent mgr hmgr rec hrec hval husable, h.count p rec hrec hval hkey husable]
      have hge := h.ge
      show _ = if rec.seq ≤ maxSeq then 1 else 0
      by_cases hold : rec.seq ≤ mgr.corpusSeq
      · rw [if_pos hold, if_neg (by omega), if_pos (by omega)]
      · rw [if_neg hold]
        by_cases hnow : rec.seq ≤ maxSeq
        · rw [if_pos ⟨by omega, hnow⟩, if_pos hnow]
        · rw [if_neg (fun hc => hnow hc.2), if_neg hnow]
    · rw [if_neg hm] at hmgr'
      rw [if_neg (Ne.symm hm), Nat.add_zero]
      exact hcounted.sent mgr' hmgr' rec hrec hval husable
  · intro hm
    have hunknown : m ∉ st.managers := fun hmem => hm ((h.mem_managers_iff hmgr).mpr hmem)
    have hne : name ≠ m := by
      intro heq
      exact hunknown (heq ▸ mem_of_lookup hmgr)
    rw [if_neg hne, hcounted.unknown hunknown]

end

end Sent

/-- Only a connected manager is found. -/
lemma connected_eq_ok : st.connected name = .ok mgr ↔
    mgr ∈ st.managers.lookup name ∧ mgr.connected = true := by
  unfold connected
  split
  · rename_i hnone
    simp [hnone]
  · rename_i mgr' hsome
    rw [hsome, Option.mem_some_iff]
    split
    · rename_i hconn
      constructor
      · intro h
        cases h
        exact ⟨rfl, hconn⟩
      · intro h
        rw [h.1]
    · rename_i hconn
      constructor
      · intro h
        cases h
      · intro h
        rw [h.1] at hconn
        exact absurd h.2 hconn

/-- At most `capRecords` programs are pending for a manager that calls `Sync`. -/
def Op.WithinCap (hash : Input → Key) (st : State) : Op → Prop
  | .sync name add del _ => ∀ mgr ∈ (st.updated hash name add del).managers.lookup name,
      ((st.updated hash name add del).pending mgr).length ≤ capRecords
  | _ => True

/-- A sync fails without effect or sends what is pending. -/
lemma sync_cases {add : List Input} {del : List Key} {orders : Orders}
    (hinv : Inv hash callsOf (st.updated hash name add del))
    (hcap : Op.WithinCap hash st (.sync name add del orders)) :
    (∃ err, st.sync hash name add del orders = (st, .error err)) ∨
    ∃ mgr ∈ (st.updated hash name add del).managers.lookup name, ∃ st' progs more maxSeq,
      st.sync hash name add del orders = (st', .ok (mgr.domain, progs, more)) ∧
      Sent hash (st.updated hash name add del) st' name mgr orders progs more maxSeq := by
  unfold sync
  split
  · rename_i err _
    exact .inl ⟨err, rfl⟩
  · rename_i mgr₀ hconn₀
    obtain ⟨hmgr₀, hconnected⟩ := connected_eq_ok.1 hconn₀
    obtain ⟨corpus, hmgr⟩ := (OnlyCorpora.updated hash st name add del).exists_manager hmgr₀
    dsimp only
    rw [connected_eq_ok.2 ⟨hmgr, hconnected⟩]
    obtain ⟨st', progs, more, maxSeq, heq, hsent⟩ :=
      sent_pendingInputs hinv hmgr orders (hcap _ hmgr)
    dsimp only
    rw [heq]
    exact .inr ⟨_, hmgr, _, progs, more, maxSeq, rfl,
      { hsent with dir := fun n hn => hsent.dir n (mem_modify.1 hn) }⟩

/-! ## Reproducers -/

/-- What the operations on reproducers leave alone. -/
structure OnlyRepros (st st' : State) : Prop where
  corpus : st'.corpus = st.corpus
  corpusSeq : st'.corpusSeq = st.corpusSeq
  managers : ∀ n, (st'.managers.lookup n).map (fun mgr => (mgr.corpusSeq, mgr.calls, mgr.corpus)) =
    (st.managers.lookup n).map fun mgr => (mgr.corpusSeq, mgr.calls, mgr.corpus)
  dir : ∀ n ∈ st'.dir.managers, n ∈ st.dir.managers

namespace OnlyRepros

lemma refl (st : State) : OnlyRepros st st := ⟨rfl, rfl, fun _ => rfl, fun _ h => h⟩

lemma trans {st'' : State} (h : OnlyRepros st st') (h' : OnlyRepros st' st'') :
    OnlyRepros st st'' where
  corpus := h'.corpus.trans h.corpus
  corpusSeq := h'.corpusSeq.trans h.corpusSeq
  managers n := (h'.managers n).trans (h.managers n)
  dir n hn := h.dir n (h'.dir n hn)

lemma modifyManager (st : State) (name : Name) {f : Manager → Manager}
    (hf : ∀ mgr, (f mgr).corpusSeq = mgr.corpusSeq ∧ (f mgr).calls = mgr.calls ∧
      (f mgr).corpus = mgr.corpus) : OnlyRepros st (st.modifyManager name f) where
  corpus := rfl
  corpusSeq := rfl
  managers := map_lookup_modify fun mgr => by
    obtain ⟨hseq, hcalls, hcorpus⟩ := hf mgr
    simp only [hseq, hcalls, hcorpus]
  dir _ h := h

lemma setReproSeq (st : State) (name : Name) (seq : ℕ) :
    OnlyRepros st (st.setReproSeq name seq) := by
  have h : OnlyRepros st (st.modifyManager name fun mgr => { mgr with reproSeq := seq }) :=
    modifyManager st name fun _ => ⟨rfl, rfl, rfl⟩
  exact ⟨h.corpus, h.corpusSeq, h.managers, fun n hn => mem_modify.1 hn⟩

/-- Reproducers do not touch the corpus. -/
lemma addRepro (hash : Input → Key) (st : State) (name : Name) (repro : Input) :
    OnlyRepros st (st.addRepro hash name repro).1 := by
  unfold State.addRepro
  split
  · exact refl st
  · rename_i mgr _
    split
    · exact refl st
    · dsimp only
      split
      · exact refl st
      · have hown : OnlyRepros st
            (st.modifyManager name fun mgr => mgr.own (hash repro)) :=
          modifyManager st name fun _ => ⟨rfl, rfl, rfl⟩
        split
        · have h := hown.trans (setReproSeq _ name (mgr.reproSeq + 1))
          exact ⟨h.corpus, h.corpusSeq, h.managers, h.dir⟩
        · exact ⟨hown.corpus, hown.corpusSeq, hown.managers, hown.dir⟩

lemma pendingRepro (st : State) (name : Name) (order : Shuffle Entry) :
    OnlyRepros st (st.pendingRepro name order).1 := by
  unfold State.pendingRepro
  split
  · exact refl st
  · split
    · exact refl st
    · split
      · exact refl st
      · exact setReproSeq st name _
      · exact setReproSeq st name _

variable (h : OnlyRepros st st')

include h

lemma symm_manager (hmgr : mgr ∈ st'.managers.lookup n) :
    ∃ old ∈ st.managers.lookup n, old.corpusSeq = mgr.corpusSeq ∧ old.calls = mgr.calls ∧
      old.corpus = mgr.corpus := by
  obtain ⟨old, hold, hsame⟩ := exists_of_map_lookup (h.managers n) hmgr
  rw [Prod.mk.injEq, Prod.mk.injEq] at hsame
  exact ⟨old, hold, hsame⟩

lemma mem_managers_iff : n ∈ st'.managers ↔ n ∈ st.managers := mem_iff_of_map_lookup (h.managers n)

lemma held_iff (key : Key) : st'.Held key ↔ st.Held key := by
  have hpart : ∀ s : State, s.Held key ↔ ∃ n, ∃ part ∈ (s.managers.lookup n).map
      (fun mgr => (mgr.corpusSeq, mgr.calls, mgr.corpus)), key ∈ part.2.2 := by
    simp [State.Held]
  rw [hpart, hpart]
  simp only [h.managers]

lemma inv (hinv : Inv hash callsOf st) : Inv hash callsOf st' where
  covers key hkey := by
    rw [h.corpus]
    exact hinv.covers key ((h.held_iff key).mp hkey)
  record := by
    rw [h.corpus, h.corpusSeq]
    exact hinv.record
  manager n mgr hmgr := by
    obtain ⟨old, hold, hseq, hcalls, _⟩ := h.symm_manager hmgr
    rw [h.corpusSeq, ← hseq, ← hcalls]
    exact hinv.manager n old hold
  dir n hn := h.mem_managers_iff.mpr (hinv.dir n (h.dir n hn))

lemma counted (hcounted : Counted hash m p num st) : Counted hash m p num st' where
  sent mgr hmgr rec hrec hval husable := by
    obtain ⟨old, hold, hseq, hcalls, _⟩ := h.symm_manager hmgr
    rw [← hseq]
    exact hcounted.sent old hold rec (h.corpus ▸ hrec) hval (hcalls ▸ husable)
  unknown hm := hcounted.unknown fun hmem => hm (h.mem_managers_iff.mpr hmem)

end OnlyRepros

/-! ## Runs -/

/-- The manager always connects with the same calls. -/
def Op.HasCalls (callsOf : Name → List CallName) : Op → Prop
  | .connect name _ _ calls _ => ∀ c, c ∈ calls ↔ c ∈ callsOf name
  | _ => True

def Op.isRestart : Op → Bool
  | .restart _ => true
  | _ => false

/-- The conditions on a run: the hub is not restarted, the calls of each manager are fixed, and not
too many programs are pending. -/
def Allowed (hash : Input → Key) (callsOf : Name → List CallName) (st : State) : List Op → Prop
  | [] => True
  | op :: ops => op.isRestart = false ∧ op.HasCalls callsOf ∧ op.WithinCap hash st ∧
      Allowed hash callsOf (step hash st op) ops

/-- The programs of the hub are those of the managers. -/
def State.Consistent (st : State) : Prop := ∀ key, key ∈ st.corpus ↔ st.Held key

lemma Inv.updated (hinv : Inv hash callsOf st) (hkeys : st.Consistent) (name : Name)
    (add : List Input) (del : List Key) : Inv hash callsOf (st.updated hash name add del) :=
  (hinv.deleteInputs hkeys name del).addInputs name add

lemma consistent_updated (hkeys : st.Consistent) (hname : name ∈ st.managers)
    (hinv : Inv hash callsOf (st.updated hash name add del)) :
    (st.updated hash name add del).Consistent := by
  have hdeleted := (deleted_deleteInputs st name del).keys hkeys
  have hadded := added_addInputs hash (st.deleteInputs name del) name add
  intro key
  refine ⟨fun hkey => ?_, hinv.covers key⟩
  rcases hadded.owned ((OnlyCorpora.deleteInputs st name del).mem_managers hname) key hkey with
    hold | hnew
  · exact hadded.stays key ((hdeleted key).mp hold)
  · exact hnew

section Step

variable {op : Op}

section

variable (hinv : Inv hash callsOf st) (hkeys : st.Consistent) (hrestart : op.isRestart = false)
  (hcalls : op.HasCalls callsOf) (hcap : op.WithinCap hash st)

include hinv hkeys hrestart hcalls hcap

/-- Every operation keeps the invariant. -/
lemma step_inv : Inv hash callsOf (step hash st op) ∧ (step hash st op).Consistent := by
  cases op with
  | connect name domain fresh calls corpus =>
    have hreg := (registered_register domain fresh calls hinv.dir).inv hinv hcalls
    have hadd := hreg.addInputs name corpus
    exact ⟨hadd.purgeCorpus, purgeCorpus_keys hadd.covers⟩
  | sync name add del orders =>
    have hupdated := hinv.updated hkeys name add del
    rcases sync_cases hupdated hcap with ⟨err, heq⟩ | ⟨mgr, hmgr, st', progs, more, maxSeq, heq, hsent⟩
    · rw [step, heq]
      exact ⟨hinv, hkeys⟩
    · rw [step, heq]
      refine ⟨hsent.inv hmgr hupdated, fun key => ?_⟩
      have hname : name ∈ st.managers :=
        (OnlyCorpora.updated hash st name add del).symm.mem_managers
          (mem_of_lookup hmgr)
      rw [hsent.corpus, hsent.held_iff hmgr]
      exact consistent_updated hkeys hname hupdated key
  | addRepro name repro =>
    have h := OnlyRepros.addRepro hash st name repro
    refine ⟨h.inv hinv, fun key => ?_⟩
    rw [step, h.corpus, h.held_iff]
    exact hkeys key
  | pendingRepro name order =>
    have h := OnlyRepros.pendingRepro st name order
    refine ⟨h.inv hinv, fun key => ?_⟩
    rw [step, h.corpus, h.held_iff]
    exact hkeys key
  | restart order => cases hrestart

/-- Every operation changes the count by what it returns. -/
lemma step_counted (hcounted : Counted hash m p num st)
    (hnever : ¬ (step hash st op).Holds m (hash p)) :
    Counted hash m p (returnedBy hash m p st num op) (step hash st op) := by
  cases op with
  | connect name domain fresh calls corpus =>
    have hreg : Registered name fresh calls st (st.register name domain fresh calls) :=
      registered_register domain fresh calls hinv.dir
    have hadd := (hreg.counted hinv hcalls hcounted).addInputs (hreg.inv hinv hcalls) name corpus
    have hnum : returnedBy hash m p st num (.connect name domain fresh calls corpus) =
        if (st.register name domain fresh calls).hasInput hash p then
          if fresh = true ∧ name = m then 0 else num else 0 := by
      rw [returnedBy, hasInput, hasInput, hreg.corpus]
      split <;> split <;> rfl
    rw [hnum]
    exact hadd.purgeCorpus
  | sync name add del orders =>
    have hupdated := hinv.updated hkeys name add del
    have hcountedUpdated :=
      (hcounted.deleteInputs name del).addInputs (hinv.deleteInputs hkeys name del) name add
    rcases sync_cases hupdated hcap with ⟨err, heq⟩ | ⟨mgr, hmgr, st', progs, more, maxSeq, heq, hsent⟩
    · rw [step, returnedBy, heq]
      exact hcounted
    · rw [step, heq] at hnever
      rw [step, returnedBy, heq]
      exact hsent.counted hmgr hcountedUpdated fun hholds =>
        hnever ((hsent.holds_iff hmgr m _).mpr hholds)
  | addRepro name repro => exact (OnlyRepros.addRepro hash st name repro).counted hcounted
  | pendingRepro name order => exact (OnlyRepros.pendingRepro st name order).counted hcounted
  | restart order => cases hrestart

end

end Step

variable {ops : List Op}

lemma NeverHolds.first (h : NeverHolds hash m key st ops) : ¬ st.Holds m key := by
  cases ops with
  | nil => exact h
  | cons => exact h.1

lemma run_counted (hinv : Inv hash callsOf st) (hkeys : st.Consistent)
    (hallowed : Allowed hash callsOf st ops) (hcounted : Counted hash m p num st)
    (hnever : NeverHolds hash m (hash p) st ops) :
    Counted hash m p (returnedTo hash m p st num ops) (run hash st ops) := by
  induction ops generalizing st num with
  | nil => exact hcounted
  | cons op ops ih =>
    obtain ⟨hrestart, hcalls, hcap, hrest⟩ := hallowed
    obtain ⟨hinv', hkeys'⟩ := step_inv hinv hkeys hrestart hcalls hcap
    exact ih hinv' hkeys' hrest
      (step_counted hinv hkeys hrestart hcalls hcap hcounted hnever.2.first) hnever.2

lemma run_inv (hinv : Inv hash callsOf st) (hkeys : st.Consistent)
    (hallowed : Allowed hash callsOf st ops) :
    Inv hash callsOf (run hash st ops) ∧ (run hash st ops).Consistent := by
  induction ops generalizing st with
  | nil => exact ⟨hinv, hkeys⟩
  | cons op ops ih =>
    obtain ⟨hrestart, hcalls, hcap, hrest⟩ := hallowed
    obtain ⟨hinv', hkeys'⟩ := step_inv hinv hkeys hrestart hcalls hcap
    exact ih hinv' hkeys' hrest

lemma allowed_append {ops' : List Op} :
    Allowed hash callsOf st (ops ++ ops') ↔
      Allowed hash callsOf st ops ∧ Allowed hash callsOf (run hash st ops) ops' := by
  induction ops generalizing st with
  | nil => simp [Allowed, run]
  | cons op ops ih =>
    show _ ∧ _ ∧ _ ∧ Allowed hash callsOf (step hash st op) (ops ++ ops') ↔ _
    rw [ih, Allowed, show run hash st (op :: ops) = run hash (step hash st op) ops from rfl]
    simp only [and_assoc]

lemma neverHolds_run (h : NeverHolds hash m key st ops) : ¬ (run hash st ops).Holds m key := by
  induction ops generalizing st with
  | nil => exact h
  | cons op ops ih => exact ih h.2

lemma inv_init (hash : Input → Key) (callsOf : Name → List CallName) :
    Inv hash callsOf (init hash) where
  covers _ h := by
    obtain ⟨n, mgr, hmgr, _⟩ := h
    cases hmgr
  record _ _ h := by cases h
  manager _ _ h := by cases h
  dir _ h := by cases h

lemma consistent_init (hash : Input → Key) : (init hash).Consistent := by
  intro key
  constructor
  · intro h
    cases h
  · intro ⟨n, mgr, hmgr, _⟩
    cases hmgr

/-- In every run without restarts in which the calls of each manager are fixed and at most
`capRecords` programs are pending for a manager: the hub has exactly the programs of the managers;
a program that a `Sync` returns has the domain of the manager iff a manager of that domain has it;
and when the `Sync` reports that no more are pending, each program that uses only the calls of the
manager and that the manager never had has been returned to it once since the program entered the
hub or the manager last connected afresh. -/
theorem hub_delivers_once (hash : Input → Key) (callsOf : Name → List CallName) (ops : List Op)
    (hallowed : Allowed hash callsOf (State.init hash) ops) :
    (∀ key, key ∈ (run hash (State.init hash) ops).corpus ↔
      ∃ n, ∃ mgr ∈ (run hash (State.init hash) ops).managers.lookup n, key ∈ mgr.corpus) ∧
    ∀ ops' name add del orders st' domain progs more, ops = ops' ++ [.sync name add del orders] →
      (run hash (State.init hash) ops').sync hash name add del orders =
        (st', .ok (domain, progs, more)) →
      (∀ input ∈ progs, input.domain = domain ↔
        ∃ n, ∃ mgr ∈ st'.managers.lookup n, mgr.domain = domain ∧
          hash input.prog ∈ mgr.corpus) ∧
      (more = 0 → ∀ key, ∀ rec ∈ st'.corpus.lookup key, usable (callsOf name) rec.val = true →
        NeverHolds hash name key (State.init hash) ops →
        returnedTo hash name rec.val (State.init hash) 0 ops = 1) := by
  have hinit := inv_init hash callsOf
  have hkeys := consistent_init hash
  refine ⟨(run_inv hinit hkeys hallowed).2, ?_⟩
  intro ops' name add del orders st' domain progs more hops hsync
  subst hops
  obtain ⟨hbefore, _, _, hcap, _⟩ := allowed_append.1 hallowed
  obtain ⟨hinv, hcons⟩ := run_inv hinit hkeys hbefore
  have hupdated := hinv.updated hcons name add del
  have hrun : run hash (State.init hash) (ops' ++ [.sync name add del orders]) = st' := by
    rw [run, foldl_append, ← run]
    exact congrArg Prod.fst hsync
  rcases sync_cases hupdated hcap with ⟨err, heq⟩ | ⟨mgr, hmgr, _, _, _, maxSeq, heq, hsent⟩
  · rw [hsync] at heq
    cases heq
  · rw [hsync] at heq
    cases heq
    refine ⟨?_, ?_⟩
    · intro input hinput
      obtain ⟨key, rec, hrec, hprog, hdomain⟩ := hsent.tags input hinput
      have hkey : key = hash input.prog := hprog ▸ (hupdated.record key rec hrec).1
      have hname : name ∈ (run hash (State.init hash) ops').managers :=
        (OnlyCorpora.updated hash _ name add del).symm.mem_managers
          (mem_of_lookup hmgr)
      have hheld : (State.updated hash _ name add del).Held key :=
        (consistent_updated hcons hname hupdated key).mp (mem_of_lookup hrec)
      rw [hdomain, inputDomain_eq_iff _ orders mgr.domain hheld, ← hkey]
      exact exists_congr fun n => (hsent.exists_manager_iff hmgr (fun _ _ => Iff.rfl) n).symm
    · intro hmore key rec hrec husable hnever
      rw [hsent.corpus] at hrec
      have hkey : key = hash rec.val := (hupdated.record key rec hrec).1
      subst hkey
      have hcounted := run_counted hinit hkeys hallowed ⟨fun _ h => (by cases h), fun _ => rfl⟩ hnever
      rw [hrun] at hcounted
      have hmgr' : { mgr with corpusSeq := maxSeq } ∈ st'.managers.lookup name := by
        rw [hsent.managers, if_pos rfl]
        rfl
      have hmgrUsable : usable mgr.calls rec.val = true := by
        rw [usable_congr (hupdated.manager name mgr hmgr).2]
        exact husable
      have hholds : hash rec.val ∉ mgr.corpus := by
        intro hmem
        apply neverHolds_run hnever
        rw [hrun]
        exact ⟨_, hmgr', hmem⟩
      rw [hcounted.sent _ hmgr' rec (hsent.corpus ▸ hrec) rfl hmgrUsable]
      exact if_pos (hsent.complete hmore _ rec hrec hholds hmgrUsable)

def text (s : String) : List UInt8 := s.toList.map ascii

/-- Two managers connect, the first uploads a program and the second asks for programs. -/
def exchange : List Op :=
  [.connect "foo" "linux" false [text "open"] [], .connect "bar" "next" false [text "open"] [],
    .sync "foo" [text "open()"] [] .id, .sync "bar" [] [] .id]

lemma holds_iff_any : st.Holds name key ↔
    ((st.managers.lookup name).any fun mgr => decide (key ∈ mgr.corpus)) = true := by
  simp [State.Holds, Option.any_eq_true]

/-- Two managers exchange a program. -/
theorem hub_delivers_once_exchange :
    Allowed id (fun _ => [text "open"]) (State.init id) exchange ∧
    returnedTo id "bar" (text "open()") (State.init id) 0 exchange = 1 := by
  have hcap : ∀ st : State, st.corpus.entries.length ≤ capRecords →
      ∀ mgr, (st.pending mgr).length ≤ capRecords :=
    fun st hlen mgr => (length_filter_le _ _).trans hlen
  have hallowed : Allowed id (fun _ => [text "open"]) (State.init id) exchange :=
    ⟨rfl, fun _ => Iff.rfl, trivial, rfl, fun _ => Iff.rfl, trivial,
      rfl, trivial, fun mgr _ => hcap _ (by decide +kernel) mgr,
      rfl, trivial, fun mgr _ => hcap _ (by decide +kernel) mgr, trivial⟩
  have hsync : (run id (State.init id) (exchange.take 3)).sync id "bar" [] [] .id =
      (run id (State.init id) exchange, .ok ("next", [⟨"linux", text "open()"⟩], 0)) :=
    Prod.ext rfl (by decide +kernel)
  refine ⟨hallowed, ?_⟩
  apply ((hub_delivers_once id (fun _ => [text "open"]) exchange hallowed).2
    (exchange.take 3) "bar" [] [] .id _ "next" [⟨"linux", text "open()"⟩] 0 rfl hsync).2 rfl
    (text "open()") ⟨text "open()", 1⟩
  · decide +kernel
  · decide +kernel
  · have hnot : ∀ st : State, ((st.managers.lookup "bar").any fun mgr =>
        decide (text "open()" ∈ mgr.corpus)) = false → ¬ st.Holds "bar" (text "open()") :=
      fun st hany hholds => by simp [holds_iff_any.1 hholds] at hany
    exact ⟨hnot _ (by decide +kernel), hnot _ (by decide +kernel), hnot _ (by decide +kernel),
      hnot _ (by decide +kernel), hnot _ (by decide +kernel)⟩

end KConfuzz.Hub
