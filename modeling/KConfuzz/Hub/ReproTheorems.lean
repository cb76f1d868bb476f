import KConfuzz.Hub.CorpusTheorems
import KConfuzz.Lib.Cursor

/-!
# Reproducers

The reproducers the hub has accepted form a log, and the number of a reproducer is its place in
the log. The number of a manager is its position in the log: `PendingRepro` moves it behind the
next reproducer that the manager can use and that is not its own.
-/

namespace KConfuzz.Hub

open Lib.FiniteMap Lib.Cursor List Function AList

variable {hash : Input → Key} {good : Name → Input → Bool} {st st' : State} {name n : Name}
  {key : Key} {rec : Record} {mgr : Manager} {repro : Input}

/-! ## The log -/

/-- What has happened to the reproducers. -/
structure Log where
  /-- The reproducers that were new, with the managers they come from. -/
  accepted : List (Name × Input)
  /-- How many were accepted before the manager connected for the first time. -/
  since : Name → Option ℕ
  /-- What `PendingRepro` has returned to the manager. -/
  returned : Name → List Input

def Log.empty : Log := ⟨[], fun _ => none, fun _ => []⟩

/-- `AddRepro` accepts the reproducer as a new one. -/
def State.accepts (hash : Input → Key) (st : State) (name : Name) (repro : Input) : Bool :=
  match st.connected name, callSet repro with
  | .ok _, .ok _ => hash repro ∉ st.repros
  | _, _ => false

def Log.step (hash : Input → Key) (st : State) (log : Log) : Op → Log
  | .connect name _ _ _ _ =>
    let since := (log.since name).getD log.accepted.length
    { log with since := Function.update log.since name (some since) }
  | .addRepro name repro =>
    if st.accepts hash name repro then { log with accepted := log.accepted ++ [(name, repro)] }
    else log
  | .pendingRepro name order =>
    match (st.pendingRepro name order).2 with
    | .ok (some repro) =>
      { log with returned := Function.update log.returned name (log.returned name ++ [repro]) }
    | _ => log
  | _ => log

/-! ## The invariant -/

/-- The reproducer at place `i` is among the records. -/
def Stored (hash : Input → Key) (accepted : List (Name × Input)) (key : Key) (rec : Record) :
    Prop :=
  ∃ i a, accepted[i]? = some a ∧ key = hash a.2 ∧ rec = ⟨a.2, i + 1⟩

/-- The reproducers the manager `n` should have been returned. -/
def isFor (good : Name → Input → Bool) (n : Name) (a : Name × Input) : Bool :=
  a.1 ≠ n && good n a.2

/-- What holds of a manager that connected for the first time when `s` reproducers had been
accepted. -/
structure Reads (hash : Input → Key) (good : Name → Input → Bool) (log : Log) (n : Name) (s : ℕ)
    (mgr : Manager) : Prop where
  ge : s ≤ mgr.reproSeq
  le : mgr.reproSeq ≤ log.accepted.length
  /-- Of what is ahead, the manager knows which is its own. -/
  own : ∀ i a, mgr.reproSeq ≤ i → log.accepted[i]? = some a →
    (hash a.2 ∈ mgr.ownRepros ↔ a.1 = n)
  ownStored : ∀ key ∈ mgr.ownRepros, key ∈ log.accepted.map fun a => hash a.2
  usable : mgr.connected = true → ∀ input, good n input = true → usable mgr.calls input = true
  returned : (log.returned n).filter (good n) =
    ((segment log.accepted s mgr.reproSeq).filter (isFor good n)).map Prod.snd

structure LogInv (hash : Input → Key) (good : Name → Input → Bool) (st : State) (log : Log) :
    Prop where
  reproSeq : st.reproSeq = log.accepted.length
  records : ∀ key rec, rec ∈ st.repros.lookup key ↔ Stored hash log.accepted key rec
  valid : ∀ a ∈ log.accepted, ∃ res, callSet a.2 = .ok res
  distinct : (log.accepted.map fun a => hash a.2).Nodup
  reproFile : st.dir.repros = st.repros
  /-- The files of the managers say what the managers have in memory. -/
  files : ∀ n, (st.dir.managers.lookup n).map ManagerDir.reproSeq =
    (st.managers.lookup n).map fun mgr => some mgr.reproSeq
  names : ∀ n ∈ st.managers, n.endsWith purgedSuffix = false
  known : ∀ n, n ∈ st.managers ↔ (log.since n).isSome = true
  reads : ∀ n, ∀ mgr ∈ st.managers.lookup n, ∀ s ∈ log.since n, Reads hash good log n s mgr
  unknown : ∀ n, log.since n = none → log.returned n = []
  /-- Everything returned to a manager comes from another one. -/
  foreign : ∀ n, ∀ repro ∈ log.returned n, ∃ a ∈ log.accepted, a.1 ≠ n ∧ a.2 = repro

/-! ## What concerns reproducers -/

/-- The states agree in everything that concerns reproducers. -/
structure SameRepros (st st' : State) : Prop where
  reproSeq : st'.reproSeq = st.reproSeq
  repros : st'.repros = st.repros
  reproFile : st'.dir.repros = st.dir.repros
  managers : ∀ n, (st'.managers.lookup n).map
      (fun mgr => (mgr.reproSeq, mgr.ownRepros, mgr.connected, mgr.calls)) =
    (st.managers.lookup n).map fun mgr => (mgr.reproSeq, mgr.ownRepros, mgr.connected, mgr.calls)
  files : ∀ n, (st'.dir.managers.lookup n).map ManagerDir.reproSeq =
    (st.dir.managers.lookup n).map ManagerDir.reproSeq

namespace SameRepros

lemma refl (st : State) : SameRepros st st := ⟨rfl, rfl, rfl, fun _ => rfl, fun _ => rfl⟩

lemma trans {st'' : State} (h : SameRepros st st') (h' : SameRepros st' st'') :
    SameRepros st st'' where
  reproSeq := h'.reproSeq.trans h.reproSeq
  repros := h'.repros.trans h.repros
  reproFile := h'.reproFile.trans h.reproFile
  managers n := (h'.managers n).trans (h.managers n)
  files n := (h'.files n).trans (h.files n)

lemma of_onlyCorpora (h : OnlyCorpora st st') : SameRepros st st' where
  reproSeq := h.reproSeq
  repros := h.repros
  reproFile := h.reproFile
  managers n := by
    have heq := congrArg (Option.map fun mgr : Manager =>
      (mgr.reproSeq, mgr.ownRepros, mgr.connected, mgr.calls)) (h.managers n)
    rw [Option.map_map, Option.map_map] at heq
    exact heq
  files n := by
    have heq := congrArg (Option.map ManagerDir.reproSeq) (h.files n)
    rw [Option.map_map, Option.map_map] at heq
    exact heq

lemma setCorpusSeq (st : State) (name : Name) (seq : ℕ) :
    SameRepros st (st.modifyManager name fun mgr => { mgr with corpusSeq := seq }) where
  reproSeq := rfl
  repros := rfl
  reproFile := rfl
  managers := map_lookup_modify fun _ => rfl
  files _ := rfl

lemma saveCorpusSeq (st : State) (name : Name) (seq : ℕ) :
    SameRepros st (st.saveCorpusSeq name seq) where
  reproSeq := rfl
  repros := rfl
  reproFile := rfl
  managers _ := rfl
  files := map_lookup_modify fun _ => rfl

lemma pendingInputs (st : State) (name : Name) (mgr : Manager) (orders : Orders) :
    SameRepros st (st.pendingInputs name mgr orders).1 := by
  unfold State.pendingInputs
  split
  · exact refl st
  · split
    · exact refl st
    · exact (setCorpusSeq st name _).trans (saveCorpusSeq _ name _)

lemma sync (hash : Input → Key) (st : State) (name : Name) (add : List Input) (del : List Key)
    (orders : Orders) : SameRepros st (st.sync hash name add del orders).1 := by
  unfold State.sync
  split
  · exact refl st
  · have hupdated := of_onlyCorpora (OnlyCorpora.updated hash st name add del)
    dsimp only
    split
    · exact hupdated
    · exact (hupdated.trans (pendingInputs _ name _ orders)).trans (saveCorpusSeq _ name _)

variable (h : SameRepros st st')

include h

lemma exists_manager (hmgr : mgr ∈ st'.managers.lookup n) :
    ∃ old ∈ st.managers.lookup n, old.reproSeq = mgr.reproSeq ∧ old.ownRepros = mgr.ownRepros ∧
      old.connected = mgr.connected ∧ old.calls = mgr.calls := by
  obtain ⟨old, hold, hsame⟩ := exists_of_map_lookup (h.managers n) hmgr
  simp only [Prod.mk.injEq] at hsame
  exact ⟨old, hold, hsame⟩

lemma mem_managers_iff : n ∈ st'.managers ↔ n ∈ st.managers := mem_iff_of_map_lookup (h.managers n)

/-- Operations on the corpus keep the log of reproducers. -/
lemma logInv {log : Log} (hinv : LogInv hash good st log) : LogInv hash good st' log where
  reproSeq := h.reproSeq.trans hinv.reproSeq
  records := h.repros ▸ hinv.records
  valid := hinv.valid
  distinct := hinv.distinct
  reproFile := h.reproFile.trans (hinv.reproFile.trans h.repros.symm)
  files n := by
    have heq := congrArg (Option.map fun part : ℕ × List Key × Bool × List CallName =>
      some part.1) (h.managers n)
    rw [Option.map_map, Option.map_map] at heq
    exact (h.files n).trans ((hinv.files n).trans heq.symm)
  names n hn := hinv.names n (h.mem_managers_iff.mp hn)
  known n := h.mem_managers_iff.trans (hinv.known n)
  reads n mgr hmgr s hs := by
    obtain ⟨old, hold, hseq, hown, hconn, hcalls⟩ := h.exists_manager hmgr
    have hreads := hinv.reads n old hold s hs
    exact
      { ge := hseq ▸ hreads.ge
        le := hseq ▸ hreads.le
        own := hseq ▸ hown ▸ hreads.own
        ownStored := hown ▸ hreads.ownStored
        usable := hconn ▸ hcalls ▸ hreads.usable
        returned := hseq ▸ hreads.returned }
  unknown := hinv.unknown
  foreign := hinv.foreign

end SameRepros

/-! ## Changes of one manager -/

/-- The manager `name` becomes `mgr`, in memory and in its file. -/
structure Replaced (st st' : State) (name : Name) (mgr : Manager) : Prop where
  this : st'.managers.lookup name = some mgr
  file : (st'.dir.managers.lookup name).map ManagerDir.reproSeq = some (some mgr.reproSeq)
  others : ∀ n, n ≠ name → st'.managers.lookup n = st.managers.lookup n
  otherFiles : ∀ n, n ≠ name → (st'.dir.managers.lookup n).map ManagerDir.reproSeq =
    (st.dir.managers.lookup n).map ManagerDir.reproSeq

/-- Reproducers of other managers do not concern a manager before it asks for them. -/
lemma Reads.extend {log log' : Log} {s : ℕ} {ext : List (Name × Input)}
    (h : Reads hash good log n s mgr) (haccepted : log'.accepted = log.accepted ++ ext)
    (hext : ∀ a ∈ ext, a.1 ≠ n) (hdistinct : (log'.accepted.map fun a => hash a.2).Nodup)
    (hreturned : log'.returned n = log.returned n) : Reads hash good log' n s mgr where
  ge := h.ge
  le := by
    rw [haccepted, length_append]
    exact h.le.trans (Nat.le_add_right _ _)
  own i a hi ha := by
    rw [haccepted, getElem?_append] at ha
    split at ha
    · exact h.own i a hi ha
    · have hmem : a ∈ ext := mem_of_getElem? ha
      refine iff_of_false (fun hown => ?_) (hext a hmem)
      -- the manager only knows keys of reproducers that were accepted before
      rw [haccepted, map_append, nodup_append] at hdistinct
      exact hdistinct.2.2 _ (h.ownStored _ hown) _ (mem_map_of_mem hmem) rfl
  ownStored key hkey := by
    rw [haccepted, map_append]
    exact mem_append_left _ (h.ownStored key hkey)
  usable := h.usable
  returned := by
    rw [hreturned, haccepted, segment_of_append h.le]
    exact h.returned

/-- Changing one manager: what has to be shown is about that manager. -/
lemma LogInv.replace {log log' : Log} (hinv : LogInv hash good st log)
    (hrep : Replaced st st' name mgr) (ext : List (Name × Input))
    (haccepted : log'.accepted = log.accepted ++ ext)
    (hext : ∀ a ∈ ext, a.1 = name ∧ ∃ res, callSet a.2 = .ok res)
    (hdistinct : (log'.accepted.map fun a => hash a.2).Nodup)
    (hseq : st'.reproSeq = log'.accepted.length)
    (hrecords : ∀ key rec, rec ∈ st'.repros.lookup key ↔ Stored hash log'.accepted key rec)
    (hfile : st'.dir.repros = st'.repros) (hname : name.endsWith purgedSuffix = false)
    (hsince : ∀ n, n ≠ name → log'.since n = log.since n) (hknown : (log'.since name).isSome = true)
    (hreturned : ∀ n, n ≠ name → log'.returned n = log.returned n)
    (hreads : ∀ s ∈ log'.since name, Reads hash good log' name s mgr)
    (hforeign : ∀ repro ∈ log'.returned name, ∃ a ∈ log'.accepted, a.1 ≠ name ∧ a.2 = repro) :
    LogInv hash good st' log' where
  reproSeq := hseq
  records := hrecords
  valid a ha := by
    rw [haccepted, mem_append] at ha
    rcases ha with ha | ha
    · exact hinv.valid a ha
    · exact (hext a ha).2
  distinct := hdistinct
  reproFile := hfile
  files n := by
    by_cases hn : n = name
    · rw [hn, hrep.file, hrep.this]
      rfl
    · rw [hrep.otherFiles n hn, hrep.others n hn]
      exact hinv.files n
  names n hmem := by
    by_cases hn : n = name
    · exact hn ▸ hname
    · apply hinv.names n
      rw [← lookup_isSome, ← hrep.others n hn]
      exact lookup_isSome.mpr hmem
  known n := by
    by_cases hn : n = name
    · rw [hn, ← lookup_isSome, hrep.this]
      exact iff_of_true rfl hknown
    · rw [hsince n hn, ← hinv.known n, ← lookup_isSome, hrep.others n hn]
      exact lookup_isSome
  reads n mgr' hmgr' s hs := by
    by_cases hn : n = name
    · subst hn
      rw [hrep.this] at hmgr'
      cases hmgr'
      exact hreads s hs
    · rw [hrep.others n hn] at hmgr'
      rw [hsince n hn] at hs
      exact (hinv.reads n mgr' hmgr' s hs).extend haccepted
        (fun a ha heq => hn (heq ▸ (hext a ha).1)) hdistinct (hreturned n hn)
  unknown n hn := by
    by_cases hname : n = name
    · rw [hname] at hn
      rw [hn] at hknown
      cases hknown
    · rw [hreturned n hname]
      exact hinv.unknown n (hsince n hname ▸ hn)
  foreign n repro hrepro := by
    by_cases hn : n = name
    · subst hn
      exact hforeign repro hrepro
    · rw [hreturned n hn] at hrepro
      obtain ⟨a, ha, hne⟩ := hinv.foreign n repro hrepro
      exact ⟨a, haccepted ▸ mem_append_left _ ha, hne⟩

/-! ## Connecting -/

section Connect

variable {log : Log} {domain : Domain} {calls : List CallName}

variable (hinv : LogInv hash good st log)

include hinv

lemma LogInv.mem_dir_iff : n ∈ st.dir.managers ↔ n ∈ st.managers :=
  mem_iff_of_map_lookup (hinv.files n)

/-- A manager that connects keeps its position, a new one starts at the end. -/
lemma register_cases (name : Name) (domain : Domain) (calls : List CallName) :
    let st' := st.register name domain false calls
    st'.reproSeq = st.reproSeq ∧ st'.repros = st.repros ∧ st'.dir.repros = st.dir.repros ∧
    ∃ mgr, Replaced st st' name mgr ∧ mgr.calls = calls ∧
      ((∃ old ∈ st.managers.lookup name, mgr.reproSeq = old.reproSeq ∧
          mgr.ownRepros = old.ownRepros) ∨
        name ∉ st.managers ∧ mgr.reproSeq = st.reproSeq ∧ mgr.ownRepros = []) := by
  unfold State.register State.findOrCreate
  cases hlookup : st.managers.lookup name with
  | some old =>
    obtain ⟨files, hfiles⟩ := mem_iff_exists_lookup.1 (hinv.mem_dir_iff.mpr (mem_of_lookup hlookup))
    refine ⟨rfl, rfl, rfl, old.connect st.reproSeq domain false calls, ⟨lookup_insert _, ?_,
      fun n hn => lookup_insert_ne hn, fun n hn => ?_⟩, rfl, .inl ⟨old, rfl, rfl, rfl⟩⟩
    · exact congrArg _ (lookup_modify_self hfiles)
    · exact congrArg _ (lookup_modify_ne hn)
  | none =>
    have hname : name ∉ st.managers := lookup_eq_none.mp hlookup
    have hfiles : st.dir.managers.lookup name = none :=
      lookup_eq_none.mpr fun hmem => hname (hinv.mem_dir_iff.mp hmem)
    -- without a file the position is zero, which is replaced by the number of the hub
    have hseq : (if loadSeqFile ((st.dir.managers.lookup name).getD .empty).reproSeq = 0 then
        st.reproSeq else loadSeqFile ((st.dir.managers.lookup name).getD .empty).reproSeq) =
          st.reproSeq := by
      rw [hfiles]
      rfl
    refine ⟨?_, rfl, rfl, (st.createManager name).2.connect _ domain false calls,
      ⟨lookup_insert _, ?_, fun n hn => ?_, fun n hn => ?_⟩, rfl, .inr ⟨hname, hseq, rfl⟩⟩
    · show max st.reproSeq _ = st.reproSeq
      rw [hseq, Nat.max_self]
    · exact congrArg _ (lookup_modify_self (lookup_insert _))
    · show ((st.managers.insert name _).insert name _).lookup n = _
      rw [lookup_insert_ne hn, lookup_insert_ne hn]
    · exact congrArg _ ((lookup_modify_ne hn).trans (lookup_insert_ne hn))

/-- Connecting keeps the log. -/
lemma LogInv.connect (corpus : List Input) (hname : name.endsWith purgedSuffix = false)
    (hgood : ∀ input, good name input = true → Hub.usable calls input = true) :
    LogInv hash good (st.connect hash name domain false calls corpus)
      (log.step hash st (.connect name domain false calls corpus)) := by
  obtain ⟨hseq, hrepros, hfile, mgr, hrep, hcalls, hmgr⟩ := register_cases hinv name domain calls
  have hcorpora : SameRepros (st.register name domain false calls)
      (st.connect hash name domain false calls corpus) :=
    (SameRepros.of_onlyCorpora (.addInputs hash _ name corpus)).trans
      (.of_onlyCorpora (.purgeCorpus _))
  apply hcorpora.logInv
  apply hinv.replace hrep []
  · exact (append_nil _).symm
  · intro a ha
    cases ha
  · exact hinv.distinct
  · exact hseq.trans hinv.reproSeq
  · exact hrepros ▸ hinv.records
  · rw [hfile, hrepros]
    exact hinv.reproFile
  · exact hname
  · exact fun n hn => update_of_ne hn _ _
  · show (update log.since name _ name).isSome = true
    rw [update_self]
    rfl
  · exact fun _ _ => rfl
  · intro s hs
    replace hs : s ∈ update log.since name
      (some ((log.since name).getD log.accepted.length)) name := hs
    rw [update_self, Option.mem_some_iff] at hs
    have husable : mgr.connected = true → ∀ input, good name input = true →
        Hub.usable mgr.calls input = true := fun _ => hcalls.symm ▸ hgood
    rcases hmgr with ⟨old, hold, holdSeq, holdOwn⟩ | ⟨hnew, hnewSeq, hnewOwn⟩
    · have hknown := (hinv.known name).mp (mem_of_lookup hold)
      obtain ⟨s', hs'⟩ := Option.isSome_iff_exists.mp hknown
      rw [hs', Option.getD_some] at hs
      subst hs
      have hreads := hinv.reads name old hold s' hs'
      exact ⟨holdSeq ▸ hreads.ge, holdSeq ▸ hreads.le, holdSeq ▸ holdOwn ▸ hreads.own,
        holdOwn ▸ hreads.ownStored, husable, holdSeq ▸ hreads.returned⟩
    · have hnone : log.since name = none := by
        rw [← Option.not_isSome_iff_eq_none, ← hinv.known]
        exact hnew
      rw [hnone, Option.getD_none] at hs
      have hpos : mgr.reproSeq = s := by rw [hnewSeq, hinv.reproSeq, hs]
      refine ⟨hpos.ge, (hpos.trans hs.symm).le, ?_, ?_, husable, ?_⟩
      · intro i a hi ha
        have hlt := (List.getElem?_eq_some_iff.mp ha).1
        exact absurd (show i < log.accepted.length from hlt) (by omega)
      · intro key hkey
        rw [hnewOwn] at hkey
        cases hkey
      · rw [hpos, segment_self]
        show (log.returned name).filter _ = _
        rw [hinv.unknown name hnone]
        rfl
  · exact hinv.foreign name

end Connect

/-! ## Adding reproducers -/

section AddRepro

variable {log : Log}

lemma accepts_iff : st.accepts hash name repro = true ↔
    (∃ mgr, st.connected name = .ok mgr) ∧ (∃ res, callSet repro = .ok res) ∧
      hash repro ∉ st.repros := by
  unfold State.accepts
  cases hconn : st.connected name with
  | error err => simp
  | ok mgr =>
    cases hcalls : callSet repro with
    | error err => simp
    | ok res => simp

/-- A new reproducer gets the next number. Its manager moves on if it has been sent everything. -/
lemma addRepro_of_accepts (hinv : LogInv hash good st log)
    (hmgr : mgr ∈ st.managers.lookup name) (hconn : mgr.connected = true)
    (hcalls : ∃ res, callSet repro = .ok res) (hnew : hash repro ∉ st.repros) :
    let st' := (st.addRepro hash name repro).1
    Replaced st st' name
      { mgr with
        ownRepros := hash repro :: mgr.ownRepros
        reproSeq := if mgr.reproSeq = st.reproSeq then mgr.reproSeq + 1 else mgr.reproSeq } ∧
    st'.reproSeq = st.reproSeq + 1 ∧
    st'.repros = st.repros.insert (hash repro) ⟨repro, st.reproSeq + 1⟩ ∧
    st'.dir.repros = st'.repros := by
  obtain ⟨⟨calls, ncalls⟩, hcalls⟩ := hcalls
  obtain ⟨files, hfiles, hfileSeq⟩ := exists_of_map_lookup (hinv.files name).symm hmgr
  unfold State.addRepro
  rw [connected_eq_ok.2 ⟨hmgr, hconn⟩, hcalls]
  dsimp only
  rw [if_neg hnew]
  by_cases hlast : mgr.reproSeq = st.reproSeq
  · have hlast' : mgr.reproSeq =
        (st.modifyManager name fun mgr => mgr.own (hash repro)).reproSeq := hlast
    rw [if_pos hlast', if_pos hlast]
    refine ⟨⟨?_, ?_, fun n hn => ?_, fun n hn => ?_⟩, rfl, rfl, rfl⟩
    · exact lookup_modify_self (lookup_modify_self hmgr)
    · exact congrArg _ (lookup_modify_self hfiles)
    · exact (lookup_modify_ne hn).trans (lookup_modify_ne hn)
    · exact congrArg _ (lookup_modify_ne hn)
  · have hlast' : ¬ mgr.reproSeq =
        (st.modifyManager name fun mgr => mgr.own (hash repro)).reproSeq := hlast
    rw [if_neg hlast', if_neg hlast]
    refine ⟨⟨?_, ?_, fun n hn => ?_, fun n hn => rfl⟩, rfl, rfl, rfl⟩
    · exact lookup_modify_self hmgr
    · show (st.dir.managers.lookup name).map _ = _
      rw [hfiles, Option.map_some, hfileSeq]
    · exact lookup_modify_ne hn

lemma addRepro_of_not_accepts (h : st.accepts hash name repro = false) :
    (st.addRepro hash name repro).1 = st := by
  have hnot := mt accepts_iff.2 (Bool.eq_false_iff.mp h)
  unfold State.addRepro
  cases hconn : st.connected name with
  | error err => rfl
  | ok mgr =>
    cases hcalls : callSet repro with
    | error err => rfl
    | ok res =>
      have hmem : hash repro ∈ st.repros := by
        by_contra hmem
        exact hnot ⟨⟨mgr, hconn⟩, ⟨res, hcalls⟩, hmem⟩
      simp only [hmem, if_true]

/-- A new reproducer is stored under the next number. -/
lemma mem_stored_append {accepted : List (Name × Input)} {a : Name × Input} :
    Stored hash (accepted ++ [a]) key rec ↔ Stored hash accepted key rec ∨
      key = hash a.2 ∧ rec = ⟨a.2, accepted.length + 1⟩ := by
  constructor
  · intro ⟨i, b, hb, hkey, hrec⟩
    rw [getElem?_append] at hb
    split at hb
    · exact .inl ⟨i, b, hb, hkey, hrec⟩
    · obtain ⟨hlt, hget⟩ := List.getElem?_eq_some_iff.mp hb
      rw [length_singleton] at hlt
      have hidx : i = accepted.length := by omega
      subst hidx
      rw [Nat.sub_self, getElem?_cons_zero, Option.some_inj] at hb
      subst hb
      exact .inr ⟨hkey, hrec⟩
  · rintro (⟨i, b, hb, hkey, hrec⟩ | ⟨hkey, hrec⟩)
    · have hi := (List.getElem?_eq_some_iff.mp hb).1
      exact ⟨i, b, by rw [getElem?_append_left hi, hb], hkey, hrec⟩
    · exact ⟨accepted.length, a, getElem?_concat_length, hkey, hrec⟩

lemma LogInv.mem_repros_iff (hinv : LogInv hash good st log) :
    key ∈ st.repros ↔ key ∈ log.accepted.map fun a => hash a.2 := by
  rw [mem_iff_exists_lookup]
  simp only [hinv.records, mem_map]
  constructor
  · intro ⟨rec, i, a, ha, hkey, _⟩
    exact ⟨a, mem_of_getElem? ha, hkey.symm⟩
  · intro ⟨a, ha, hkey⟩
    obtain ⟨i, hi, hget⟩ := mem_iff_getElem.mp ha
    exact ⟨⟨a.2, i + 1⟩, i, a, by rw [getElem?_eq_getElem hi, hget], hkey.symm, rfl⟩

/-- The manager that a reproducer comes from either moves behind it or remembers it. -/
lemma Reads.addOwn {s : ℕ} (h : Reads hash good log name s mgr)
    (hseq : st.reproSeq = log.accepted.length)
    (hnew : hash repro ∉ log.accepted.map fun a => hash a.2) :
    Reads hash good { log with accepted := log.accepted ++ [(name, repro)] } name s
      { mgr with
        ownRepros := hash repro :: mgr.ownRepros
        reproSeq := if mgr.reproSeq = st.reproSeq then mgr.reproSeq + 1 else mgr.reproSeq } := by
  have hle := h.le
  have hge := h.ge
  let accepted := log.accepted ++ [(name, repro)]
  let seq := if mgr.reproSeq = st.reproSeq then mgr.reproSeq + 1 else mgr.reproSeq
  have hlast : accepted[log.accepted.length]? = some (name, repro) := getElem?_concat_length
  have hpos : mgr.reproSeq ≤ seq := by
    unfold seq
    split <;> omega
  have hposLe : seq ≤ log.accepted.length + 1 := by
    unfold seq
    split <;> omega
  refine ⟨hge.trans hpos, ?_, ?_, ?_, h.usable, ?_⟩
  · show _ ≤ accepted.length
    rw [length_append, length_singleton]
    exact hposLe
  · intro i a hi ha
    replace ha : accepted[i]? = some a := ha
    rw [mem_cons]
    by_cases hilast : i = log.accepted.length
    · rw [hilast, hlast, Option.some_inj] at ha
      subst ha
      exact iff_of_true (.inl rfl) rfl
    · have hlt := (List.getElem?_eq_some_iff.mp ha).1
      rw [length_append, length_singleton] at hlt
      rw [getElem?_append_left (by omega)] at ha
      have hother : hash a.2 ≠ hash repro := by
        intro heq
        exact hnew (heq ▸ mem_map_of_mem (mem_of_getElem? ha))
      rw [← h.own i a (hpos.trans hi) ha]
      exact or_iff_right hother
  · intro key hkey
    show key ∈ accepted.map _
    rw [map_append, mem_append]
    rcases mem_cons.mp hkey with rfl | hkey
    · exact .inr (mem_singleton.mpr rfl)
    · exact .inl (h.ownStored key hkey)
  · show (log.returned name).filter _ = ((segment accepted s seq).filter _).map _
    -- if the manager moves, it moves behind its own reproducer only
    rw [h.returned, filter_segment_skip hge hpos, segment_of_append hle]
    intro i a hi hlt ha
    unfold seq at hlt
    split at hlt
    · have hidx : i = log.accepted.length := by omega
      rw [hidx, hlast, Option.some_inj] at ha
      subst ha
      simp [isFor]
    · omega

/-- Adding a reproducer keeps the log. -/
lemma LogInv.addRepro (hinv : LogInv hash good st log) (name : Name) (repro : Input) :
    LogInv hash good (st.addRepro hash name repro).1
      (log.step hash st (.addRepro name repro)) := by
  cases haccepts : st.accepts hash name repro with
  | false =>
    rw [addRepro_of_not_accepts haccepts, Log.step, haccepts]
    exact hinv
  | true =>
    obtain ⟨⟨mgr, hconnected⟩, hcalls, hnew⟩ := accepts_iff.1 haccepts
    obtain ⟨hmgr, hconn⟩ := connected_eq_ok.1 hconnected
    obtain ⟨hrep, hseq, hrepros, hfile⟩ := addRepro_of_accepts hinv hmgr hconn hcalls hnew
    have hname : name ∈ st.managers := mem_of_lookup hmgr
    have hlog : log.step hash st (.addRepro name repro) =
        { log with accepted := log.accepted ++ [(name, repro)] } := by
      rw [Log.step, haccepts]
      rfl
    have hnotMem : hash repro ∉ log.accepted.map fun a => hash a.2 :=
      fun hmem => hnew (hinv.mem_repros_iff.mpr hmem)
    rw [hlog]
    apply hinv.replace hrep [(name, repro)]
    · rfl
    · intro a ha
      rw [mem_singleton.mp ha]
      exact ⟨rfl, hcalls⟩
    · show ((log.accepted ++ [(name, repro)]).map fun a => hash a.2).Nodup
      rw [map_append, nodup_append]
      refine ⟨hinv.distinct, nodup_singleton _, ?_⟩
      intro key hkey key' hkey' heq
      have hkeyEq : key = hash repro := heq.trans (mem_singleton.mp hkey')
      exact hnotMem (hkeyEq ▸ hkey)
    · show _ = (log.accepted ++ [(name, repro)]).length
      rw [hseq, hinv.reproSeq, length_append, length_singleton]
    · intro key rec
      show _ ↔ Stored hash (log.accepted ++ [(name, repro)]) key rec
      rw [hrepros, lookup_insert_eq, mem_stored_append, ← hinv.records]
      split
      · rename_i hkey
        rw [hkey, lookup_eq_none.mpr hnew, hinv.reproSeq]
        simp [eq_comm]
      · rename_i hkey
        simp [hkey]
    · exact hfile
    · exact hinv.names name hname
    · exact fun _ _ => rfl
    · exact (hinv.known name).mp hname
    · exact fun _ _ => rfl
    · intro s hs
      exact (hinv.reads name mgr hmgr s hs).addOwn hinv.reproSeq hnotMem
    · intro repro' hrepro'
      obtain ⟨a, ha, hne⟩ := hinv.foreign name repro' hrepro'
      exact ⟨a, mem_append_left _ ha, hne⟩

end AddRepro

/-! ## Asking for reproducers -/

section PendingRepro

variable {log : Log} {entries : List Entry} {found : Option Record} {e : Entry}

/-- A reproducer that can be returned to the manager. -/
def Manager.awaits (mgr : Manager) (e : Entry) : Prop :=
  mgr.reproSeq < e.2.seq ∧ e.1 ∉ mgr.ownRepros ∧ usable mgr.calls e.2.val = true

/-- `found` is the first of the records that can be returned. -/
structure Manager.First (mgr : Manager) (entries : List Entry) (found : Option Record) : Prop where
  awaited : ∀ rec ∈ found, ∃ e ∈ entries, mgr.awaits e ∧ e.2 = rec
  first : ∀ e ∈ entries, mgr.awaits e → ∃ rec ∈ found, rec.seq ≤ e.2.seq

section

variable (h : mgr.First entries found)

include h

lemma Manager.First.skip
    (hskip : mgr.awaits e → ∃ rec ∈ found, rec.seq ≤ e.2.seq) : mgr.First (entries ++ [e]) found where
  awaited rec hrec := by
    obtain ⟨e', he', hawaits⟩ := h.awaited rec hrec
    exact ⟨e', mem_append_left _ he', hawaits⟩
  first := forall_mem_append.mpr ⟨h.first, forall_mem_singleton.mpr hskip⟩

lemma Manager.First.take (hawaits : mgr.awaits e)
    (hless : ∀ rec ∈ found, e.2.seq < rec.seq) : mgr.First (entries ++ [e]) (some e.2) where
  awaited rec hrec := ⟨e, by simp, hawaits, Option.mem_some_iff.mp hrec⟩
  first := by
    refine forall_mem_append.mpr
      ⟨fun e' he' hawaits' => ?_, forall_mem_singleton.mpr fun _ => ⟨e.2, rfl, le_rfl⟩⟩
    obtain ⟨rec, hrec, hle⟩ := h.first e' he' hawaits'
    exact ⟨e.2, rfl, (hless rec hrec).le.trans hle⟩

/-- A round of the search keeps the first entry found. -/
lemma reproLoop_round (hcalls : ∃ res, callSet e.2.val = .ok res) (rest : List Entry) :
    ∃ found', reproLoop mgr found (e :: rest) = reproLoop mgr found' rest ∧
      mgr.First (entries ++ [e]) found' := by
  obtain ⟨⟨calls, ncalls⟩, hcalls⟩ := hcalls
  have husable : usable mgr.calls e.2.val = managerSupportsAllCalls mgr.calls calls := by
    simp only [usable, hcalls]
  rw [reproLoop, hcalls]
  dsimp only
  split_ifs with hseq hown hsupports hless
  · exact ⟨found, rfl, h.skip fun hawaits => absurd hawaits.1 (by omega)⟩
  · exact ⟨found, rfl, h.skip fun hawaits => absurd hown hawaits.2.1⟩
  · refine ⟨found, rfl, h.skip fun hawaits => ?_⟩
    rw [← husable, hawaits.2.2] at hsupports
    cases hsupports
  · refine ⟨some e.2, rfl, h.take ⟨by omega, hown, ?_⟩ (by simpa [Option.all_eq_true] using hless)⟩
    rw [husable]
    simpa using hsupports
  · refine ⟨found, rfl, h.skip fun _ => ?_⟩
    simpa [Option.all_eq_true] using hless

/-- The loop finds the first of the records that can be returned. -/
lemma reproLoop_spec {rest : List Entry} (hcalls : ∀ e ∈ rest, ∃ res, callSet e.2.val = .ok res) :
    ∃ res, reproLoop mgr found rest = .ok res ∧ mgr.First (entries ++ rest) res := by
  induction rest generalizing entries found with
  | nil => exact ⟨found, rfl, by rwa [append_nil]⟩
  | cons e rest ih =>
    rw [forall_mem_cons] at hcalls
    obtain ⟨found', hround, hfirst⟩ := reproLoop_round h hcalls.1 rest
    rw [hround, append_cons]
    exact ih hfirst hcalls.2

end

/-- The entry of the log cannot be returned to the manager. -/
def Skipped (hash : Input → Key) (mgr : Manager) (a : Name × Input) : Prop :=
  hash a.2 ∈ mgr.ownRepros ∨ usable mgr.calls a.2 = false

lemma skipped_of_not_awaits {i : ℕ} {a : Name × Input} (hi : mgr.reproSeq ≤ i)
    (h : ¬ mgr.awaits ⟨hash a.2, a.2, i + 1⟩) : Skipped hash mgr a := by
  by_contra hskip
  rw [Skipped, not_or, Bool.not_eq_false] at hskip
  exact h ⟨Nat.lt_succ_of_le hi, hskip⟩

/-- The manager moves on, in memory and in its file. -/
lemma LogInv.setReproSeq (hinv : LogInv hash good st log) (hmgr : mgr ∈ st.managers.lookup name)
    {seq : ℕ} {returned : Name → List Input}
    (hreturned : ∀ n, n ≠ name → returned n = log.returned n)
    (hreads : ∀ s ∈ log.since name,
      Reads hash good { log with returned } name s { mgr with reproSeq := seq })
    (hforeign : ∀ repro ∈ returned name, ∃ a ∈ log.accepted, a.1 ≠ name ∧ a.2 = repro) :
    LogInv hash good (st.setReproSeq name seq) { log with returned } := by
  obtain ⟨files, hfiles, _⟩ := exists_of_map_lookup (hinv.files name).symm hmgr
  have hname : name ∈ st.managers := mem_of_lookup hmgr
  have hrep : Replaced st (st.setReproSeq name seq) name { mgr with reproSeq := seq } :=
    { this := lookup_modify_self hmgr
      file := congrArg _ (lookup_modify_self hfiles)
      others := fun n hn => lookup_modify_ne hn
      otherFiles := fun n hn => congrArg _ (lookup_modify_ne hn) }
  exact hinv.replace hrep [] (append_nil _).symm (by simp) hinv.distinct hinv.reproSeq hinv.records
    hinv.reproFile (hinv.names name hname) (fun _ _ => rfl) ((hinv.known name).mp hname) hreturned
    hreads hforeign

/-- What `PendingRepro` does for a connected manager. -/
lemma pendingRepro_cases (hinv : LogInv hash good st log) (hmgr : mgr ∈ st.managers.lookup name)
    (hconn : mgr.connected = true) (order : Shuffle Entry) :
    (st.pendingRepro name order = (st, .ok none) ∧ mgr.reproSeq = st.reproSeq) ∨
    (st.pendingRepro name order = (st.setReproSeq name st.reproSeq, .ok none) ∧
      ∀ i a, mgr.reproSeq ≤ i → log.accepted[i]? = some a → Skipped hash mgr a) ∨
    ∃ i a, st.pendingRepro name order = (st.setReproSeq name (i + 1), .ok (some a.2)) ∧
      mgr.reproSeq ≤ i ∧ log.accepted[i]? = some a ∧ ¬ Skipped hash mgr a ∧
      ∀ j b, mgr.reproSeq ≤ j → j < i → log.accepted[j]? = some b → Skipped hash mgr b := by
  unfold State.pendingRepro
  rw [connected_eq_ok.2 ⟨hmgr, hconn⟩]
  by_cases hdone : mgr.reproSeq = st.reproSeq
  · exact .inl ⟨if_pos hdone, hdone⟩
  · dsimp only
    rw [if_neg hdone]
    have hentry : ∀ e, e ∈ order.order st.repros.entries ↔ Stored hash log.accepted e.1 e.2 := by
      intro e
      rw [order.mem_order, ← hinv.records, mem_lookup_iff]
    have hvalid : ∀ e ∈ order.order st.repros.entries, ∃ res, callSet e.2.val = .ok res := by
      intro e he
      obtain ⟨i, a, ha, _, hrec⟩ := (hentry e).mp he
      rw [hrec]
      exact hinv.valid a (mem_of_getElem? ha)
    have hnone : mgr.First [] none := ⟨by simp, by simp⟩
    obtain ⟨res, hloop, hfrom, hfirst⟩ := reproLoop_spec hnone hvalid
    rw [hloop]
    have hlog : ∀ i a, log.accepted[i]? = some a →
        (⟨hash a.2, a.2, i + 1⟩ : Entry) ∈ order.order st.repros.entries :=
      fun i a ha => (hentry _).mpr ⟨i, a, ha, rfl, rfl⟩
    cases res with
    | none =>
      refine .inr (.inl ⟨rfl, fun i a hi ha => skipped_of_not_awaits hi fun hawaits => ?_⟩)
      obtain ⟨first, hmem, _⟩ := hfirst _ (hlog i a ha) hawaits
      cases hmem
    | some rec =>
      obtain ⟨e, he, ⟨hlt, hown, husable⟩, hrec⟩ := hfrom rec rfl
      obtain ⟨i, a, ha, hkey, heq⟩ := (hentry e).mp he
      rw [hkey] at hown
      rw [hrec] at heq
      rw [hrec, heq] at hlt husable
      subst heq
      refine .inr (.inr ⟨i, a, rfl, Nat.le_of_lt_succ hlt, ha, ?_, fun j b hj hji hb => ?_⟩)
      · rintro (hmem | hunusable)
        · exact hown hmem
        · rw [husable] at hunusable
          cases hunusable
      · apply skipped_of_not_awaits hj
        intro hawaits'
        obtain ⟨first, hmem, hle⟩ := hfirst _ (hlog j b hb) hawaits'
        rw [← Option.mem_some_iff.mp hmem] at hle
        exact absurd (show i + 1 ≤ j + 1 from hle) (by omega)

section

variable {s i : ℕ} {a : Name × Input} (h : Reads hash good log name s mgr)
  (hconn : mgr.connected = true)

include h hconn

lemma Reads.isFor_of_skipped (hi : mgr.reproSeq ≤ i)
    (ha : log.accepted[i]? = some a) (hskip : Skipped hash mgr a) : isFor good name a = false := by
  rcases hskip with hown | hunusable
  · simp [isFor, (h.own i a hi ha).mp hown]
  · have hbad : good name a.2 = false := by
      rw [← Bool.not_eq_true]
      intro hgood
      rw [h.usable hconn a.2 hgood] at hunusable
      cases hunusable
    simp [isFor, hbad]

lemma Reads.finish
    (hskip : ∀ i a, mgr.reproSeq ≤ i → log.accepted[i]? = some a → Skipped hash mgr a) :
    Reads hash good log name s { mgr with reproSeq := log.accepted.length } where
  ge := h.ge.trans h.le
  le := le_rfl
  own i a hi ha := h.own i a (h.le.trans hi) ha
  ownStored := h.ownStored
  usable := h.usable
  returned := by
    rw [h.returned, filter_segment_skip h.ge h.le]
    exact fun i a hi _ ha => h.isFor_of_skipped hconn hi ha (hskip i a hi ha)

/-- Reading on to the next reproducer that is not skipped. -/
lemma Reads.next (hi : mgr.reproSeq ≤ i)
    (ha : log.accepted[i]? = some a) (hfound : ¬ Skipped hash mgr a)
    (hskip : ∀ j b, mgr.reproSeq ≤ j → j < i → log.accepted[j]? = some b → Skipped hash mgr b) :
    a.1 ≠ name ∧
    Reads hash good
      { log with returned := update log.returned name (log.returned name ++ [a.2]) }
      name s { mgr with reproSeq := i + 1 } := by
  have hforeign : a.1 ≠ name := fun hown => hfound (.inl ((h.own i a hi ha).mpr hown))
  have hlen := (List.getElem?_eq_some_iff.mp ha).1
  refine ⟨hforeign, h.ge.trans (hi.trans (Nat.le_succ i)), hlen, ?_, h.ownStored, h.usable, ?_⟩
  · exact fun j b hj hb => h.own j b (hi.trans ((Nat.le_succ i).trans hj)) hb
  · show (update log.returned name _ name).filter _ = _
    rw [update_self, filter_append, h.returned]
    rw [filter_segment_next h.ge hi ha, map_append]
    · cases hgood : good name a.2 <;> simp [isFor, hforeign, hgood]
    · exact fun j b hj hji hb => h.isFor_of_skipped hconn hj hb (hskip j b hj hji hb)

end

/-- Polling for a reproducer keeps the log. -/
lemma LogInv.pendingRepro (hinv : LogInv hash good st log) (name : Name) (order : Shuffle Entry) :
    LogInv hash good (st.pendingRepro name order).1
      (log.step hash st (.pendingRepro name order)) := by
  cases hconnected : st.connected name with
  | error err =>
    have heq : st.pendingRepro name order = (st, .error err) := by
      rw [State.pendingRepro, hconnected]
    rw [Log.step, heq]
    exact hinv
  | ok mgr =>
    obtain ⟨hmgr, hconn⟩ := connected_eq_ok.1 hconnected
    rcases pendingRepro_cases hinv hmgr hconn order with ⟨heq, _⟩ | ⟨heq, hskip⟩ |
      ⟨i, a, heq, hi, ha, hfound, hskip⟩
    · rw [Log.step, heq]
      exact hinv
    · rw [Log.step, heq]
      refine hinv.setReproSeq hmgr (fun _ _ => rfl) (fun s hs => ?_) (hinv.foreign name)
      rw [hinv.reproSeq]
      exact (hinv.reads name mgr hmgr s hs).finish hconn hskip
    · rw [Log.step, heq]
      obtain ⟨s, hs⟩ := Option.isSome_iff_exists.mp ((hinv.known name).mp (mem_of_lookup hmgr))
      have hforeign := ((hinv.reads name mgr hmgr s hs).next hconn hi ha hfound hskip).1
      refine hinv.setReproSeq hmgr (fun n hn => update_of_ne hn _ _) ?_ ?_
      · intro s hs
        exact ((hinv.reads name mgr hmgr s hs).next hconn hi ha hfound hskip).2
      · intro repro hrepro
        rw [update_self, mem_append, mem_singleton] at hrepro
        rcases hrepro with hold | hnew
        · exact hinv.foreign name repro hold
        · exact ⟨a, mem_of_getElem? ha, hforeign, hnew.symm⟩

end PendingRepro

end KConfuzz.Hub
