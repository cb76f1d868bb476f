import Mathlib.Data.List.InsertIdx
import KConfuzz.Manager.Corpus

/-!
# Which records the manager deletes

A record is protected by the hash of its program as the current serializer prints it, and deleted
by its key. The two agree for a record that the current version would write, and not for one whose
text is parsed to something that is printed in another way (`kept_iff_hashed`).
-/

namespace KConfuzz

open List

namespace Manager

/-! ## The database -/

namespace DB

variable {db : DB} {k key : String}

@[simp] lemma mem_keys_delete : k ∈ (db.delete key).keys ↔ k ∈ db.keys ∧ k ≠ key := by
  unfold DB.keys DB.delete
  simp only [mem_map, mem_filter, bne_iff_ne]
  constructor
  · rintro ⟨rec, ⟨hrec, hne⟩, rfl⟩
    exact ⟨⟨rec, hrec, rfl⟩, hne⟩
  · rintro ⟨⟨rec, hrec, rfl⟩, hne⟩
    exact ⟨rec, ⟨hrec, hne⟩, rfl⟩

@[simp] lemma mem_keys_foldl_delete {l : List String} :
    k ∈ (l.foldl DB.delete db).keys ↔ k ∈ db.keys ∧ k ∉ l := by
  induction l generalizing db with
  | nil => simp
  | cons key l ih =>
    rw [foldl_cons, ih, mem_keys_delete, mem_cons, not_or, and_assoc]

lemma mem_keys_save (h : k ∈ db.keys) (val : List UInt8) : k ∈ (db.save key val).keys := by
  unfold DB.save
  split
  · exact h
  · exact mem_cons_of_mem _ h

@[simp] lemma keys_bumpVersion (version : ℕ) : (db.bumpVersion version).keys = db.keys := rfl

end DB

/-! ## Loading -/

variable {env : SeedEnv} {db : DB} {inputs : List Input} {seeds : List (List UInt8)}
  {enabled : Syscall → Bool}

/-- The hashes that `FilterCandidates` returns are those of the programs with disabled calls, as
they were before these were cut out. -/
lemma modifiedHashes_filterCandidates (candidates : List Candidate) (dropMinimize : Bool) :
    (filterCandidates env candidates enabled dropMinimize).modifiedHashes =
      (candidates.filter fun item => !item.prog.onlyContains enabled).map
        fun item => env.sig item.prog := by
  have hfold : ∀ ret : FilteredCandidates,
      (candidates.foldl (filterCandidate env enabled dropMinimize) ret).modifiedHashes =
        ret.modifiedHashes ++ (candidates.filter fun item => !item.prog.onlyContains enabled).map
          fun item => env.sig item.prog := by
    induction candidates with
    | nil => simp
    | cons item candidates ih =>
      intro ret
      rw [foldl_cons, ih]
      unfold filterCandidate
      by_cases honly : item.prog.onlyContains enabled
      · rw [if_pos honly, filter_cons_of_neg (by simp [honly])]
        rfl
      · rw [if_neg honly, filter_cons_of_pos (by simp [honly]), map_cons]
        dsimp only
        split
        · exact (append_cons _ _ _).symm
        · exact (append_cons _ _ _).symm
  rw [filterCandidates, hfold, nil_append]

section

variable (hinputs : inputs.Perm (readInputs db seeds))

include hinputs

/-- Candidates are records and seed files that are not among them. -/
lemma mem_candidates_iff {item : Candidate} :
    item ∈ (loadSeeds env db inputs false).candidates ↔
      (∃ rec ∈ db.records, parseSeed env rec.2 = some item.prog ∧
        item = ⟨item.prog, versionToFlags db.version, rec.1⟩) ∨
      ∃ data ∈ seeds, parseSeed env data = some item.prog ∧ env.sig item.prog ∉ db.keys ∧
        item = ⟨item.prog, ⟨false, true, false⟩, ""⟩ := by
  show item ∈ inputs.filterMap (candidateOf env db) ↔ _
  simp only [mem_filterMap, hinputs.mem_iff, readInputs, mem_append, mem_map,
    or_and_right, exists_or, exists_exists_and_eq_and, candidateOf]
  refine or_congr (exists_congr fun rec => and_congr_right fun _ => ?_)
    (exists_congr fun data => and_congr_right fun _ => ?_)
  · cases parseSeed env rec.2 with
    | none => simp
    | some p =>
      simp only [Bool.false_eq_true, if_false, Option.some.injEq]
      constructor
      · rintro rfl
        exact ⟨rfl, rfl⟩
      · rintro ⟨rfl, h⟩
        exact h.symm
  · cases parseSeed env data with
    | none => simp
    | some p =>
      simp only [if_true, contains_iff_mem, Option.some.injEq]
      split
      · rename_i hkey
        simp only [reduceCtorEq, false_iff]
        rintro ⟨rfl, hnot, -⟩
        exact hnot hkey
      · rename_i hkey
        rw [Option.some.injEq]
        constructor
        · rintro rfl
          exact ⟨rfl, hkey, rfl⟩
        · rintro ⟨rfl, -, h⟩
          exact h.symm

omit hinputs in
/-- A record whose program is executed again with calls cut out, if any are left. -/
def HasDisabled (env : SeedEnv) (enabled : Syscall → Bool) (data : List UInt8) (p : Prog) : Prop :=
  parseSeed env data = some p ∧ ∃ c ∈ p.calls, enabled c.callMeta = false

omit hinputs in
lemma not_onlyContains_iff {p : Prog} :
    p.onlyContains enabled = false ↔ ∃ c ∈ p.calls, enabled c.callMeta = false := by
  simp [Prog.onlyContains]

/-- Of the keys of the database, those are protected that a record with disabled calls hashes
to. Seed files protect none, as those with such a hash are dropped. -/
lemma mem_disabledHashes_iff {k : String} (hk : k ∈ db.keys) :
    k ∈ (runManager env true db inputs enabled []).disabledHashes ↔
      ∃ rec ∈ db.records, ∃ p, HasDisabled env enabled rec.2 p ∧ env.sig p = k := by
  show k ∈ [] ++ (filterCandidates env (loadSeeds env db inputs false).candidates enabled
    true).modifiedHashes ↔ _
  rw [nil_append, modifiedHashes_filterCandidates, mem_map]
  constructor
  · rintro ⟨item, hitem, rfl⟩
    rw [mem_filter, Bool.not_eq_true', not_onlyContains_iff] at hitem
    rcases (mem_candidates_iff hinputs).mp hitem.1 with ⟨rec, hrec, hparse, -⟩ | ⟨_, -, -, hnot, -⟩
    · exact ⟨rec, hrec, item.prog, ⟨hparse, hitem.2⟩, rfl⟩
    · exact absurd hk hnot
  · rintro ⟨rec, hrec, p, ⟨hparse, hdisabled⟩, rfl⟩
    refine ⟨⟨p, versionToFlags db.version, rec.1⟩, ?_, rfl⟩
    rw [mem_filter, Bool.not_eq_true', not_onlyContains_iff]
    exact ⟨(mem_candidates_iff hinputs).mpr (.inl ⟨rec, hrec, hparse, rfl⟩), hdisabled⟩

/-- A record that parses is not deleted when the corpus is loaded. -/
lemma mem_keys_loaded {rec : String × List UInt8}
    (hrec : rec ∈ db.records) {p : Prog} (hparse : parseSeed env rec.2 = some p) :
    rec.1 ∈ (runManager env true db inputs enabled []).corpusDB.keys := by
  show rec.1 ∈ (((inputs.filter fun inp => !inp.isSeed && (parseSeed env inp.data).isNone).map
    Input.key).foldl DB.delete db).keys
  rw [DB.mem_keys_foldl_delete]
  refine ⟨mem_map_of_mem hrec, ?_⟩
  intro hbroken
  obtain ⟨inp, hinp, hkey⟩ := mem_map.mp hbroken
  simp only [mem_filter, hinputs.mem_iff, readInputs, mem_append, mem_map,
    Bool.and_eq_true, Bool.not_eq_true', Option.isNone_iff_eq_none] at hinp
  obtain ⟨⟨rec', hrec', rfl⟩ | ⟨data, -, rfl⟩, hseed, hnone⟩ := hinp
  · -- the record with this key is the one that parses
    have heq := inj_on_of_nodup_map db.nodup hrec' hrec hkey
    rw [heq, hparse] at hnone
    cases hnone
  · cases hseed

end

/-! ## Runs -/

variable {mgr : Manager} {k : String}

lemma disabledHashes_step (e : Event) : (mgr.step env e).disabledHashes = mgr.disabledHashes := by
  cases e with
  | minimize kept =>
    show (minimizeCorpusLocked kept mgr).disabledHashes = _
    unfold minimizeCorpusLocked
    split_ifs <;> rfl
  | _ => rfl

/-- No event deletes a protected record. -/
lemma mem_keys_step (hdisabled : k ∈ mgr.disabledHashes) (hk : k ∈ mgr.corpusDB.keys)
    (e : Event) : k ∈ (mgr.step env e).corpusDB.keys := by
  cases e with
  | setPhase phase => exact hk
  | save p => exact hk
  | handleInput p => exact DB.mem_keys_save hk _
  | minimize kept =>
    show k ∈ (minimizeCorpusLocked kept mgr).corpusDB.keys
    unfold minimizeCorpusLocked
    split_ifs
    · exact hk
    · exact hk
    · rw [DB.keys_bumpVersion, DB.mem_keys_foldl_delete]
      refine ⟨hk, ?_⟩
      simp [hdisabled]

lemma mem_keys_run (events : List Event) (hdisabled : k ∈ mgr.disabledHashes)
    (hk : k ∈ mgr.corpusDB.keys) : k ∈ (mgr.run env events).corpusDB.keys := by
  induction events generalizing mgr with
  | nil => exact hk
  | cons e events ih =>
    apply ih
    · rw [disabledHashes_step]
      exact hdisabled
    · exact mem_keys_step hdisabled hk e

/-- The corpus is loaded, a program is triaged and saved, and the corpus is minimized. -/
def triageEvents (q : Prog) (kept : List String) : List Event :=
  [.setPhase .phaseLoadedCorpus, .save q, .handleInput q, .setPhase .phaseTriagedCorpus,
    .minimize kept]

/-- After triage of one program, records that are not protected go, unless the corpus has them. -/
lemma notMem_keys_run {q : Prog} {kept : List String} (hdisabled : k ∉ mgr.disabledHashes)
    (hcorpus : mgr.corpus = []) (hlast : mgr.lastMinCorpus = 0) (hkept : k ∉ kept) :
    k ∉ (mgr.run env (triageEvents q kept)).corpusDB.keys := by
  show k ∉ (minimizeCorpusLocked kept { mgr with
    phase := .phaseTriagedCorpus
    corpus := mgr.corpus.insert (env.sig q)
    corpusDB := mgr.corpusDB.save (env.sig q) (env.serialize q) }).corpusDB.keys
  have hinsert : ([] : List String).insert (env.sig q) = [env.sig q] := rfl
  rw [hcorpus, hinsert]
  unfold minimizeCorpusLocked
  rw [if_neg (by simp [Phase.beforeTriaged]), if_neg (by rw [hlast]; simp)]
  simp [hdisabled, hkept]

/-- With `PreserveCorpus`, and whatever gets into the corpus later, no record with disabled calls
is deleted exactly when each of them has a key that one of them hashes to, as it is printed now.
The triage of any one program that stays in the corpus already tells. -/
theorem kept_iff_hashed (hinputs : inputs.Perm (readInputs db seeds)) :
    ((∀ rec ∈ db.records, ∀ p, HasDisabled env enabled rec.2 p → ∀ events,
      rec.1 ∈ (runManager env true db inputs enabled events).corpusDB.keys) ↔
    ∀ rec ∈ db.records, ∀ p, HasDisabled env enabled rec.2 p →
      ∃ rec' ∈ db.records, ∃ p', HasDisabled env enabled rec'.2 p' ∧ env.sig p' = rec.1) ∧
    ∀ q : Prog, ∀ rec ∈ db.records, ∀ p, HasDisabled env enabled rec.2 p → rec.1 ≠ env.sig q →
      (rec.1 ∈ (runManager env true db inputs enabled
        (triageEvents q [env.sig q])).corpusDB.keys ↔
      ∃ rec' ∈ db.records, ∃ p', HasDisabled env enabled rec'.2 p' ∧ env.sig p' = rec.1) := by
  refine ⟨forall_congr' fun rec => forall_congr' fun hrec => forall_congr' fun p =>
    forall_congr' fun hp => ?_, fun q rec hrec p hp hne => ?_⟩
  all_goals rw [← mem_disabledHashes_iff hinputs (mem_map_of_mem hrec)]
  · constructor
    · intro h
      by_contra hnot
      exact notMem_keys_run hnot rfl rfl not_mem_nil (h (triageEvents p []))
    · intro h events
      exact mem_keys_run events h (mem_keys_loaded hinputs hrec hp.1)
  · constructor
    · intro h
      by_contra hnot
      exact notMem_keys_run hnot rfl rfl (by simpa using hne) h
    · exact fun h => mem_keys_run _ h (mem_keys_loaded hinputs hrec hp.1)

/-! A target with one call that is enabled and one that is not. A blank in the text of a program
does not matter to the parser, and the serializer does not write it. -/

def seedTarget : Target :=
  { syscalls := [{ id := 0, name := "sync" }, { id := 1, name := "munlockall" }]
    dataOffset := 0x20000000, specialPointers := [] }

/-- A program of one call without arguments. -/
def oneCall (callMeta : Syscall) (h : callMeta ∈ seedTarget.syscalls) : Prog where
  target := seedTarget
  calls := [{ callMeta, args := [], ret := none, props := .zero }]
  callMeta_mem := by simpa using h

def munlockProg : Prog := oneCall { id := 1, name := "munlockall" } (by decide)

/-- The program that is triaged, with the call that is enabled. -/
def onlySync : Prog := oneCall { id := 0, name := "sync" } (by decide)

def syncOnly (s : Syscall) : Bool := s.name == "sync"

def blankEnv : SeedEnv where
  deserialize data := if data.filter (· != 0x20) = [0x6d] then some munlockProg else none
  serialize p := p.calls.map fun c => if c.callMeta.name = "sync" then 0x73 else 0x6d
  hash data := String.ofList (data.map fun b => Char.ofNat b.toNat)
  checkArch _ := true

def seedDB (key : String) (val : List UInt8) : DB := ⟨currentDBVersion, [(key, val)], by simp⟩

lemma hasDisabled_munlockProg (data : List UInt8) (h : data.filter (· != 0x20) = [0x6d]) :
    HasDisabled blankEnv syncOnly data munlockProg := by
  have hparse : blankEnv.deserialize data = some munlockProg := if_pos h
  refine ⟨?_, _, mem_singleton_self _, rfl⟩
  unfold parseSeed
  rw [hparse]
  rfl

theorem kept_munlockProg :
    ∃ db inputs, db = seedDB "m" [0x6d] ∧
      "m" ∈ (runManager blankEnv true db inputs syncOnly
        (triageEvents onlySync [blankEnv.sig onlySync])).corpusDB.keys := by
  refine ⟨_, readInputs (seedDB "m" [0x6d]) [], rfl, ?_⟩
  have hmem : ("m", [0x6d]) ∈ (seedDB "m" [0x6d]).records := mem_singleton_self _
  have hdisabled := hasDisabled_munlockProg [0x6d] rfl
  have htriage := (kept_iff_hashed (Perm.refl (readInputs (seedDB "m" [0x6d]) []))).2 onlySync _
    hmem munlockProg hdisabled (by decide)
  exact htriage.mpr ⟨_, hmem, munlockProg, hdisabled, by decide⟩

/-- The text with a blank is parsed, and its record is deleted. -/
theorem not_kept_munlockProg :
    HasDisabled blankEnv syncOnly [0x6d, 0x20] munlockProg ∧
      "m " ∉ (runManager blankEnv true (seedDB "m " [0x6d, 0x20])
        (readInputs (seedDB "m " [0x6d, 0x20]) []) syncOnly
        (triageEvents onlySync [blankEnv.sig onlySync])).corpusDB.keys := by
  exact ⟨hasDisabled_munlockProg _ rfl, by decide +kernel⟩

end Manager

end KConfuzz
