import KConfuzz.Hub.State

/-!
# What the operations on the corpora can do

Adding, deleting and purging programs change the corpora of the hub and of one manager and nothing
else (`OnlyCorpora`). What they do to the corpora is said once for each operation: which records
the hub has afterwards, and which keys the managers hold.
-/

namespace KConfuzz.Hub

open Lib.FiniteMap

variable {hash : Input → Key} {st st' st'' : State} {name n : Name} {key : Key} {rec : Record}

/-! ## What is left alone -/

/-- A manager without its corpus. -/
def Manager.header (mgr : Manager) : Manager := { mgr with corpus := ∅ }

/-- The files of a manager without the corpus. -/
def ManagerDir.header (files : ManagerDir) : ManagerDir := { files with corpus := ∅ }

/-- The states differ in the corpora and the last number of a program only. -/
structure OnlyCorpora (st st' : State) : Prop where
  managers : ∀ n, (st'.managers.lookup n).map Manager.header =
    (st.managers.lookup n).map Manager.header
  files : ∀ n, (st'.dir.managers.lookup n).map ManagerDir.header =
    (st.dir.managers.lookup n).map ManagerDir.header
  reproSeq : st'.reproSeq = st.reproSeq
  repros : st'.repros = st.repros
  reproFile : st'.dir.repros = st.dir.repros

namespace OnlyCorpora

lemma refl (st : State) : OnlyCorpora st st := ⟨fun _ => rfl, fun _ => rfl, rfl, rfl, rfl⟩

/-- Inputs that are added one after the other. -/
lemma trans (h : OnlyCorpora st st') (h' : OnlyCorpora st' st'') : OnlyCorpora st st'' where
  managers n := (h'.managers n).trans (h.managers n)
  files n := (h'.files n).trans (h.files n)
  reproSeq := h'.reproSeq.trans h.reproSeq
  repros := h'.repros.trans h.repros
  reproFile := h'.reproFile.trans h.reproFile

lemma modifyManager (st : State) (name : Name) {f : Manager → Manager}
    (hf : ∀ mgr, (f mgr).header = mgr.header) : OnlyCorpora st (st.modifyManager name f) where
  managers := map_lookup_modify hf
  files _ := rfl
  reproSeq := rfl
  repros := rfl
  reproFile := rfl

lemma modifyFiles (st : State) (name : Name) {f : ManagerDir → ManagerDir}
    (hf : ∀ files, (f files).header = files.header) : OnlyCorpora st (st.modifyFiles name f) where
  managers _ := rfl
  files := map_lookup_modify hf
  reproSeq := rfl
  repros := rfl
  reproFile := rfl

lemma flushCorpus (st : State) : OnlyCorpora st st.flushCorpus :=
  ⟨fun _ => rfl, fun _ => rfl, rfl, rfl, rfl⟩

lemma flushManager (st : State) (name : Name) : OnlyCorpora st (st.flushManager name) := by
  unfold State.flushManager
  split
  · exact refl st
  · exact modifyFiles st name fun _ => rfl

lemma purgeCorpus (st : State) : OnlyCorpora st st.purgeCorpus :=
  ⟨fun _ => rfl, fun _ => rfl, rfl, rfl, rfl⟩

lemma deleteInputs (st : State) (name : Name) (del : List Key) :
    OnlyCorpora st (st.deleteInputs name del) := by
  unfold State.deleteInputs
  split
  · exact refl st
  · have hdelete : OnlyCorpora st (st.modifyManager name fun mgr => mgr.delete del) :=
      modifyManager st name fun _ => rfl
    exact (hdelete.trans (flushManager _ name)).trans (purgeCorpus _)

lemma addInput (hash : Input → Key) (st : State) (name : Name) (input : Input) :
    OnlyCorpora st (st.addInput hash name input) := by
  unfold State.addInput
  split
  · exact refl st
  · split
    · exact refl st
    · have hsave : OnlyCorpora st (st.modifyManager name fun mgr => mgr.save (hash input)) :=
        modifyManager st name fun _ => rfl
      dsimp only
      split
      · exact hsave
      · exact hsave.trans ⟨fun _ => rfl, fun _ => rfl, rfl, rfl, rfl⟩

lemma addInputs (hash : Input → Key) (st : State) (name : Name) (inputs : List Input) :
    OnlyCorpora st (st.addInputs hash name inputs) := by
  unfold State.addInputs
  split
  · exact refl st
  · have hseq : OnlyCorpora st { st with corpusSeq := st.corpusSeq + 1 } :=
      ⟨fun _ => rfl, fun _ => rfl, rfl, rfl, rfl⟩
    have hfold := List.foldlRecOn (motive := OnlyCorpora st) inputs _ hseq
      fun st' h input _ => h.trans (addInput hash st' name input)
    exact (hfold.trans (flushManager _ name)).trans (flushCorpus _)

lemma updated (hash : Input → Key) (st : State) (name : Name) (add : List Input)
    (del : List Key) : OnlyCorpora st (st.updated hash name add del) :=
  (deleteInputs st name del).trans (addInputs hash _ name add)

lemma exists_manager (h : OnlyCorpora st st') {mgr : Manager} (hmgr : mgr ∈ st.managers.lookup n) :
    ∃ corpus, { mgr with corpus } ∈ st'.managers.lookup n := by
  obtain ⟨mgr', hmgr', hheader⟩ := exists_of_map_lookup (h.managers n).symm hmgr
  exact ⟨mgr'.corpus, by rw [hmgr']; cases mgr'; cases hheader; rfl⟩

lemma symm (h : OnlyCorpora st st') : OnlyCorpora st' st where
  managers n := (h.managers n).symm
  files n := (h.files n).symm
  reproSeq := h.reproSeq.symm
  repros := h.repros.symm
  reproFile := h.reproFile.symm

end OnlyCorpora

/-! ## Corpora -/

/-- A manager has the key in its corpus. -/
def State.Held (st : State) (key : Key) : Prop :=
  ∃ n, ∃ mgr ∈ st.managers.lookup n, key ∈ mgr.corpus

lemma used_iff (st : State) (key : Key) : st.used key = true ↔ st.Held key := by
  simp only [State.used, List.any_eq_true, decide_eq_true_eq, State.Held]
  constructor
  · intro ⟨e, he, hkey⟩
    exact ⟨e.1, e.2, AList.mem_lookup_iff.mpr he, hkey⟩
  · intro ⟨n, mgr, hmgr, hkey⟩
    exact ⟨⟨n, mgr⟩, AList.mem_lookup_iff.mp hmgr, hkey⟩

lemma mem_lookup_purgeCorpus (st : State) (key : Key) (rec : Record) :
    rec ∈ st.purgeCorpus.corpus.lookup key ↔ rec ∈ st.corpus.lookup key ∧ st.Held key := by
  show rec ∈ (keep (fun key _ => st.used key) st.corpus).lookup key ↔ _
  rw [mem_lookup_keep, used_iff]

lemma flushManager_corpus (st : State) (name : Name) :
    (st.flushManager name).corpus = st.corpus ∧
    (st.flushManager name).managers = st.managers ∧
    (st.flushManager name).corpusSeq = st.corpusSeq := by
  unfold State.flushManager
  split <;> exact ⟨rfl, rfl, rfl⟩

/-- What an upload that gets the number `seq` can change. -/
structure Added (hash : Input → Key) (name : Name) (seq : ℕ) (st st' : State) : Prop where
  corpusSeq : st.corpusSeq ≤ st'.corpusSeq
  kept : ∀ key, ∀ rec ∈ st.corpus.lookup key, rec ∈ st'.corpus.lookup key
  fresh : ∀ key, ∀ rec ∈ st'.corpus.lookup key, rec ∈ st.corpus.lookup key ∨
    key ∉ st.corpus ∧ rec.seq = seq ∧ rec.seq ≤ st'.corpusSeq ∧ key = hash rec.val ∧
      ∃ res, callSet rec.val = .ok res
  /-- Nobody drops a program. -/
  stays : ∀ key, st.Held key → st'.Held key
  /-- Whoever gets a program has it in the hub. -/
  held : ∀ key, st'.Held key → st.Held key ∨ key ∈ st'.corpus
  /-- New programs of the hub are those of the manager. -/
  owned : name ∈ st.managers → ∀ key, key ∈ st'.corpus → key ∈ st.corpus ∨ st'.Held key

namespace Added

lemma refl (hash : Input → Key) (name : Name) (seq : ℕ) (st : State) :
    Added hash name seq st st where
  corpusSeq := le_rfl
  kept _ _ h := h
  fresh _ _ h := .inl h
  stays _ h := h
  held _ h := .inl h
  owned _ _ h := .inl h

variable {seq : ℕ}

variable (h : Added hash name seq st st')

include h

lemma mem_corpus (hkey : key ∈ st.corpus) : key ∈ st'.corpus := by
  obtain ⟨rec, hrec⟩ := mem_iff_exists_lookup.1 hkey
  exact mem_of_lookup (h.kept key rec hrec)

lemma trans (h' : Added hash name seq st' st'')
    (hname : name ∈ st.managers → name ∈ st'.managers) : Added hash name seq st st'' where
  corpusSeq := h.corpusSeq.trans h'.corpusSeq
  kept key rec hrec := h'.kept key rec (h.kept key rec hrec)
  fresh key rec hrec := by
    rcases h'.fresh key rec hrec with hrec' | ⟨hkey, hnew⟩
    · rcases h.fresh key rec hrec' with hold | ⟨hkey, hseq, hle, hnew⟩
      · exact .inl hold
      · exact .inr ⟨hkey, hseq, hle.trans h'.corpusSeq, hnew⟩
    · exact .inr ⟨fun hmem => hkey (h.mem_corpus hmem), hnew⟩
  stays key hkey := h'.stays key (h.stays key hkey)
  held key hkey := by
    rcases h'.held key hkey with hkey' | hkey'
    · rcases h.held key hkey' with hold | hold
      · exact .inl hold
      · exact .inr (h'.mem_corpus hold)
    · exact .inr hkey'
  owned hmgr key hkey := by
    rcases h'.owned (hname hmgr) key hkey with hold | hold
    · rcases h.owned hmgr key hold with hold' | hold'
      · exact .inl hold'
      · exact .inr (h'.stays key hold')
    · exact .inr hold

lemma congr (hcorpus : st''.corpus = st'.corpus)
    (hmanagers : st''.managers = st'.managers) (hseq : st''.corpusSeq = st'.corpusSeq) :
    Added hash name seq st st'' where
  corpusSeq := hseq ▸ h.corpusSeq
  kept := by simpa only [hcorpus] using h.kept
  fresh := by simpa only [hcorpus, hseq] using h.fresh
  stays := by simpa only [State.Held, hmanagers] using h.stays
  held := by simpa only [State.Held, hcorpus, hmanagers] using h.held
  owned := by simpa only [State.Held, hcorpus, hmanagers] using h.owned

end Added

lemma lookup_modifyManager (st : State) (name n : Name) (f : Manager → Manager) :
    (st.modifyManager name f).managers.lookup n =
      if n = name then (st.managers.lookup n).map f else st.managers.lookup n :=
  lookup_modify st.managers name n f

/-- A saved input is held. -/
lemma held_save (st : State) (name : Name) (sig key : Key) :
    (st.modifyManager name fun mgr => mgr.save sig).Held key ↔
      st.Held key ∨ name ∈ st.managers ∧ key = sig := by
  constructor
  · intro ⟨n, mgr, hmgr, hkey⟩
    rw [lookup_modifyManager, Option.mem_def] at hmgr
    split at hmgr
    · rename_i hn
      obtain ⟨mgr, hold, rfl⟩ := Option.map_eq_some_iff.mp hmgr
      rcases (AList.mem_insert mgr.corpus).mp hkey with hsig | hkey
      · exact .inr ⟨mem_of_lookup (hn ▸ hold), hsig⟩
      · exact .inl ⟨n, mgr, hold, hkey⟩
    · exact .inl ⟨n, mgr, hmgr, hkey⟩
  · have hsaved : ∀ mgr ∈ st.managers.lookup name, mgr.save sig ∈
        (st.modifyManager name fun mgr => mgr.save sig).managers.lookup name := by
      intro mgr hmgr
      rw [lookup_modifyManager, if_pos rfl, Option.mem_def.mp hmgr]
      rfl
    rintro (⟨n, mgr, hmgr, hkey⟩ | ⟨hname, rfl⟩)
    · by_cases hn : n = name
      · subst hn
        exact ⟨n, _, hsaved mgr hmgr, (AList.mem_insert mgr.corpus).mpr (.inr hkey)⟩
      · refine ⟨n, mgr, ?_, hkey⟩
        rw [lookup_modifyManager, if_neg hn]
        exact hmgr
    · obtain ⟨mgr, hmgr⟩ := mem_iff_exists_lookup.1 hname
      exact ⟨name, _, hsaved mgr hmgr, (AList.mem_insert mgr.corpus).mpr (.inl rfl)⟩

/-- What adding an input changes. -/
lemma added_addInput (hash : Input → Key) (st : State) (name : Name) (input : Input) :
    Added hash name st.corpusSeq st (st.addInput hash name input) := by
  unfold State.addInput
  split
  · exact .refl hash name _ st
  · rename_i calls ncalls hcalls
    split
    · exact .refl hash name _ st
    · have hheld := held_save st name (hash input)
      dsimp only
      split
      · rename_i hmem
        exact
          { corpusSeq := le_rfl
            kept := fun _ _ h => h
            fresh := fun _ _ h => .inl h
            stays := fun key h => (hheld key).mpr (.inl h)
            held := fun key h => ((hheld key).mp h).imp_right fun ⟨_, hsig⟩ => hsig ▸ hmem
            owned := fun _ _ h => .inl h }
      · rename_i hmem
        let corpus' := st.corpus.insert (hash input) ⟨input, st.corpusSeq⟩
        have hlookup : ∀ key, corpus'.lookup key =
            if key = hash input then some ⟨input, st.corpusSeq⟩ else st.corpus.lookup key :=
          fun key => lookup_insert_eq _ _ _ _
        exact
          { corpusSeq := le_rfl
            kept := by
              intro key rec hrec
              show rec ∈ corpus'.lookup key
              rw [hlookup, if_neg]
              · exact hrec
              · intro heq
                exact hmem (mem_of_lookup (heq ▸ hrec))
            fresh := by
              intro key rec hrec
              have hrec : rec ∈ corpus'.lookup key := hrec
              rw [hlookup] at hrec
              split at hrec
              · rename_i hkey
                cases hrec
                exact .inr ⟨hkey ▸ hmem, rfl, le_rfl, hkey, _, hcalls⟩
              · exact .inl hrec
            stays := fun key h => (hheld key).mpr (.inl h)
            held := fun key h => ((hheld key).mp h).imp_right fun ⟨_, hsig⟩ =>
              (AList.mem_insert st.corpus).mpr (.inl hsig)
            owned := by
              intro hname key hkey
              rcases (AList.mem_insert st.corpus).mp hkey with rfl | hkey
              · exact .inr ((hheld _).mpr (.inr ⟨hname, rfl⟩))
              · exact .inl hkey }

lemma OnlyCorpora.mem_managers (h : OnlyCorpora st st') : n ∈ st.managers → n ∈ st'.managers :=
  (mem_iff_of_map_lookup (h.managers n)).mpr

lemma addInput_corpusSeq (hash : Input → Key) (st : State) (name : Name) (input : Input) :
    (st.addInput hash name input).corpusSeq = st.corpusSeq := by
  unfold State.addInput
  split
  · rfl
  · split
    · rfl
    · dsimp only
      split <;> rfl

/-- What adding inputs changes. -/
lemma added_addInputs (hash : Input → Key) (st : State) (name : Name) (inputs : List Input) :
    Added hash name (st.corpusSeq + 1) st (st.addInputs hash name inputs) := by
  unfold State.addInputs
  split
  · exact .refl hash name _ st
  · have hfold : ∀ (inputs : List Input) (st : State), Added hash name st.corpusSeq st
        (inputs.foldl (fun st input => st.addInput hash name input) st) := by
      intro inputs
      induction inputs with
      | nil => exact fun st => .refl hash name _ st
      | cons input inputs ih =>
        intro st
        have htail := ih (st.addInput hash name input)
        rw [addInput_corpusSeq] at htail
        exact (added_addInput hash st name input).trans htail
          (OnlyCorpora.addInput hash st name input).mem_managers
    have hadded := hfold inputs { st with corpusSeq := st.corpusSeq + 1 }
    dsimp only
    generalize inputs.foldl _ _ = st' at hadded
    obtain ⟨hcorpus, hmanagers, hseq⟩ := flushManager_corpus st' name
    have hflush : Added hash name _ _ (st'.flushManager name).flushCorpus :=
      hadded.congr hcorpus hmanagers hseq
    exact ⟨(Nat.le_succ _).trans hflush.corpusSeq, hflush.kept, hflush.fresh, hflush.stays,
      hflush.held, hflush.owned⟩

/-! ## Deleting programs -/

lemma mem_delete {mgr : Manager} {del : List Key} (h : key ∈ (mgr.delete del).corpus) :
    key ∈ mgr.corpus := by
  refine List.foldlRecOn (motive := fun corpus => key ∈ corpus → key ∈ mgr.corpus) del _ id ?_ h
  exact fun corpus h sig _ hkey => h (AList.mem_erase.mp hkey).2

lemma purgeCorpus_keys (h : ∀ key, st.Held key → key ∈ st.corpus) (key : Key) :
    key ∈ st.purgeCorpus.corpus ↔ st.purgeCorpus.Held key := by
  constructor
  · intro hkey
    obtain ⟨rec, hrec⟩ := mem_iff_exists_lookup.1 hkey
    exact ((mem_lookup_purgeCorpus st key rec).mp hrec).2
  · intro hheld
    obtain ⟨rec, hrec⟩ := mem_iff_exists_lookup.1 (h key hheld)
    exact mem_iff_exists_lookup.2 ⟨rec, (mem_lookup_purgeCorpus st key rec).mpr ⟨hrec, hheld⟩⟩

/-- What deleting programs of a manager can change. -/
structure Deleted (st st' : State) : Prop where
  corpusSeq : st'.corpusSeq = st.corpusSeq
  corpus : ∀ key, ∀ rec ∈ st'.corpus.lookup key, rec ∈ st.corpus.lookup key
  keys : (∀ key, key ∈ st.corpus ↔ st.Held key) → ∀ key, key ∈ st'.corpus ↔ st'.Held key

/-- What deleting inputs changes. -/
lemma deleted_deleteInputs (st : State) (name : Name) (del : List Key) :
    Deleted st (st.deleteInputs name del) := by
  unfold State.deleteInputs
  split
  · exact ⟨rfl, fun _ _ h => h, fun h => h⟩
  · obtain ⟨hcorpus, hmanagers, hseq⟩ :=
      flushManager_corpus (st.modifyManager name fun mgr => mgr.delete del) name
    dsimp only
    generalize (st.modifyManager name fun mgr => mgr.delete del).flushManager name = st'
      at hcorpus hmanagers hseq ⊢
    have hheld : ∀ key, st'.Held key → st.Held key := by
      intro key ⟨n, mgr, hmgr, hkey⟩
      rw [hmanagers, lookup_modifyManager, Option.mem_def] at hmgr
      split at hmgr
      · obtain ⟨mgr, hold, rfl⟩ := Option.map_eq_some_iff.mp hmgr
        exact ⟨n, mgr, hold, mem_delete hkey⟩
      · exact ⟨n, mgr, hmgr, hkey⟩
    refine ⟨hseq, ?_, ?_⟩
    · intro key rec hrec
      have hrec' := ((mem_lookup_purgeCorpus st' key rec).mp hrec).1
      rw [hcorpus] at hrec'
      exact hrec'
    · intro hkeys
      apply purgeCorpus_keys
      intro key hkey
      rw [hcorpus]
      exact (hkeys key).mpr (hheld key hkey)

end KConfuzz.Hub
