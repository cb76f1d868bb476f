import KConfuzz.Hub.ReproTheorems
import Mathlib.Data.List.Fold
import Mathlib.Data.List.MinMax
import Mathlib.Order.Nat

/-!
# Reproducers and restarts

A restart reads the position of every manager from its file and forgets which reproducers come from
whom. It does no harm when the position of no manager is zero, which means that there is no file,
when no manager has a reproducer of its own ahead of its position, and when no reproducer is too
long to be loaded again. In every run with such restarts only, a manager that asks for reproducers
until there are none has been returned those of the other managers, each once and in the order in
which they were accepted, and none of its own.
-/

namespace KConfuzz.Hub

open Lib.FiniteMap Lib.Cursor List AList

variable {hash : Input → Key} {good : Name → Input → Bool} {st st' : State} {name n : Name}
  {key : Key} {rec : Record} {mgr : Manager} {log : Log}

/-! ## Restarts -/

/-- A restart loses nothing and lets no reproducer return to where it comes from. -/
structure State.RestartSafe (st : State) : Prop where
  /-- All reproducers are loaded again. -/
  short : ∀ key, ∀ rec ∈ st.repros.lookup key, ∀ res, callSet rec.val = .ok res → res.2 ≤ maxCalls
  /-- The position zero stands for a manager without a file. -/
  position : ∀ n, ∀ mgr ∈ st.managers.lookup n, mgr.reproSeq = 0 → st.reproSeq = 0
  /-- What is ahead of the manager is not its own. -/
  own : ∀ n, ∀ mgr ∈ st.managers.lookup n, ∀ key, ∀ rec ∈ st.repros.lookup key,
    mgr.reproSeq < rec.seq → key ∉ mgr.ownRepros

lemma OnlyCorpora.flush (st : State) : OnlyCorpora st st.flush := by
  exact foldlRecOn (motive := OnlyCorpora st) _ _ (OnlyCorpora.flushCorpus st)
    fun st' h name _ => h.trans (OnlyCorpora.flushManager st' name)

/-- All reproducers are loaded again. -/
lemma loadDB_repros (hinv : LogInv hash good st log) (hsafe : st.RestartSafe) :
    loadDB hash st.repros = (st.repros, log.accepted.length) := by
  have hkeep : keep (validRecord hash) st.repros = st.repros := by
    apply keep_eq_self
    intro key rec hrec
    obtain ⟨i, a, ha, hkey, hrecEq⟩ := (hinv.records key rec).mp hrec
    obtain ⟨⟨calls, ncalls⟩, hcalls⟩ := hinv.valid a (mem_of_getElem? ha)
    have hval : rec.val = a.2 := by rw [hrecEq]
    have hshort : ncalls ≤ maxCalls := hsafe.short key rec hrec _ (hval ▸ hcalls)
    simp only [validRecord, hval, hcalls, hkey, hshort, and_self, decide_true]
  have hmax : (st.repros.entries.map fun e => e.2.seq).foldl max 0 = log.accepted.length := by
    rw [foldl_eq_foldr, show 0 = (⊥ : ℕ) from rfl]
    apply Nat.le_antisymm
    · apply max_le_of_forall_le
      refine forall_mem_map.mpr fun e he => ?_
      obtain ⟨i, a, ha, _, hrec⟩ := (hinv.records e.1 e.2).mp (mem_lookup_iff.mpr he)
      rw [hrec]
      exact (List.getElem?_eq_some_iff.mp ha).1
    · -- the last reproducer has the largest number
      by_cases hempty : log.accepted.length = 0
      · rw [hempty]
        exact Nat.zero_le _
      · have hlast : log.accepted[log.accepted.length - 1]? =
            some (log.accepted[log.accepted.length - 1]) := getElem?_eq_getElem (by omega)
        refine le_max_of_le (mem_map.mpr ⟨⟨_, _⟩, mem_lookup_iff.mp
          ((hinv.records _ _).mpr ⟨_, _, hlast, rfl, rfl⟩), rfl⟩) ?_
        show log.accepted.length ≤ log.accepted.length - 1 + 1
        omega
  rw [loadDB, hkeep, hmax]

/-- The managers whose directories are read. -/
def createManagers (st : State) (names : List Name) : State :=
  names.foldl (fun st name => (st.createManager name).1) st

/-- Only the managers that are loaded change. -/
lemma createManagers_spec (names : List Name) (st : State)
    (hnames : ∀ n ∈ names, n ∈ st.dir.managers)
    (hle : ∀ n, ∀ files ∈ st.dir.managers.lookup n,
      loadSeqFile files.reproSeq ≤ st.reproSeq) :
    (createManagers st names).reproSeq = st.reproSeq ∧
    (createManagers st names).repros = st.repros ∧
    (createManagers st names).dir.repros = st.dir.repros ∧
    (∀ n, (createManagers st names).dir.managers.lookup n = st.dir.managers.lookup n) ∧
    ∀ n, (createManagers st names).managers.lookup n =
      if n ∈ names then some (st.createManager n).2 else st.managers.lookup n := by
  induction names generalizing st with
  | nil => exact ⟨rfl, rfl, rfl, fun _ => rfl, fun _ => rfl⟩
  | cons name names ih =>
    obtain ⟨files, hfiles⟩ := mem_iff_exists_lookup.1 (hnames name (.head _))
    have hseq : (st.createManager name).1.reproSeq = st.reproSeq := by
      show max st.reproSeq (if _ then _ else _) = st.reproSeq
      rw [Option.mem_def.mp hfiles, Option.getD_some]
      have := hle name files hfiles
      split <;> omega
    have hdir : ∀ n, (st.createManager name).1.dir.managers.lookup n =
        st.dir.managers.lookup n := by
      intro n
      show (st.dir.managers.insert name _).lookup n = _
      rw [lookup_insert_eq]
      split
      · rename_i hn
        rw [hn, Option.mem_def.mp hfiles]
        rfl
      · rfl
    have hcreate : ∀ n, ((st.createManager name).1.createManager n).2 = (st.createManager n).2 := by
      intro n
      unfold State.createManager at hdir hseq ⊢
      rw [hdir n, hseq]
    obtain ⟨ihSeq, ihRepros, ihFile, ihDir, ihManagers⟩ := ih (st.createManager name).1
      (fun n hn => by
        rw [← lookup_isSome, hdir]
        exact lookup_isSome.mpr (hnames n (.tail _ hn)))
      (fun n files hn => by
        rw [hdir] at hn
        rw [hseq]
        exact hle n files hn)
    refine ⟨ihSeq.trans hseq, ihRepros, ihFile, fun n => (ihDir n).trans (hdir n), fun n => ?_⟩
    have hthis : (st.createManager name).1.managers.lookup n =
        if n = name then some (st.createManager name).2 else st.managers.lookup n :=
      lookup_insert_eq _ _ _ _
    show (createManagers (st.createManager name).1 names).managers.lookup n = _
    rw [ihManagers, hcreate, hthis]
    by_cases hmem : n ∈ names
    · rw [if_pos hmem, if_pos (.tail _ hmem)]
    · by_cases hn : n = name
      · rw [if_neg hmem, if_pos hn, if_pos (hn ▸ .head _), hn]
      · rw [if_neg hmem, if_neg hn, if_neg]
        exact fun h => (mem_cons.mp h).elim hn hmem

/-- A manager that was up to date reads on after a restart. -/
lemma Reads.reload {s : ℕ} {mgr' : Manager} (h : Reads hash good log n s mgr)
    (hseq : mgr'.reproSeq = mgr.reproSeq) (hown : mgr'.ownRepros = [])
    (hconn : mgr'.connected = false)
    (hahead : ∀ i a, mgr.reproSeq ≤ i → log.accepted[i]? = some a → hash a.2 ∉ mgr.ownRepros) :
    Reads hash good log n s mgr' where
  ge := hseq ▸ h.ge
  le := hseq ▸ h.le
  own i a hi ha := by
    rw [hseq] at hi
    rw [hown]
    refine iff_of_false not_mem_nil fun heq => hahead i a hi ha ?_
    exact (h.own i a hi ha).mpr heq
  ownStored key hkey := by
    rw [hown] at hkey
    cases hkey
  usable hc := by
    rw [hconn] at hc
    cases hc
  returned := hseq ▸ h.returned

lemma createManager_reproSeq {files : ManagerDir} (hfiles : files ∈ st.dir.managers.lookup n)
    {pos : ℕ} (hpos : files.reproSeq = some pos) (hzero : pos = 0 → st.reproSeq = 0) :
    (st.createManager n).2.reproSeq = pos := by
  show (if _ then _ else _) = pos
  rw [Option.mem_def.mp hfiles, Option.getD_some, hpos]
  show (if pos = 0 then st.reproSeq else pos) = pos
  split
  · rename_i h
    rw [hzero h, h]
  · rfl

section CreateManagers

variable {st₀ : State} {names : List Name} (hsafe : st.RestartSafe)
  (hseq₀ : st₀.reproSeq = st.reproSeq)
  (hfiles₀ : ∀ n, (st₀.dir.managers.lookup n).map ManagerDir.reproSeq =
    (st.managers.lookup n).map fun mgr => some mgr.reproSeq)
  (hempty₀ : st₀.managers = ∅) (hnames : ∀ n, n ∈ names ↔ n ∈ st.managers)

include hsafe hseq₀ hfiles₀ hempty₀ hnames

/-- A loaded manager has its old position. -/
lemma createManagers_lookup
    (hmanagers : ∀ n, (createManagers st₀ names).managers.lookup n =
      if n ∈ names then some (st₀.createManager n).2 else st₀.managers.lookup n) (n : Name) :
    (createManagers st₀ names).managers.lookup n =
      (st.managers.lookup n).map (fun _ => (st₀.createManager n).2) ∧
    ∀ mgr ∈ st.managers.lookup n, (st₀.createManager n).2.reproSeq = mgr.reproSeq := by
  rw [hmanagers, hempty₀, lookup_empty]
  cases hold : st.managers.lookup n with
  | none =>
    rw [if_neg fun hn => lookup_eq_none.mp hold ((hnames n).mp hn), Option.map_none]
    refine ⟨rfl, fun mgr hmgr => ?_⟩
    cases hmgr
  | some mgr =>
    obtain ⟨files, hfiles, hpos⟩ := exists_of_map_lookup (hfiles₀ n).symm hold
    rw [if_pos ((hnames n).mpr (mem_of_lookup hold)), Option.map_some]
    refine ⟨rfl, fun mgr' hmgr' => ?_⟩
    cases hmgr'
    apply createManager_reproSeq hfiles hpos
    intro hzero
    rw [hseq₀]
    exact hsafe.position n mgr hold hzero

/-- Loading the managers keeps the log. -/
lemma LogInv.createManagers (hinv : LogInv hash good st log)
    (hrepros₀ : st₀.repros = st.repros) (hfile₀ : st₀.dir.repros = st.repros) :
    LogInv hash good (createManagers st₀ names) log := by
  have hmemDir : ∀ n, n ∈ st₀.dir.managers ↔ n ∈ st.managers :=
    fun n => mem_iff_of_map_lookup (hfiles₀ n)
  have hle : ∀ n, ∀ files ∈ st₀.dir.managers.lookup n,
      loadSeqFile files.reproSeq ≤ st₀.reproSeq := by
    intro n files hfiles
    obtain ⟨mgr, hmgr, hpos⟩ := exists_of_map_lookup (hfiles₀ n) hfiles
    obtain ⟨s, hs⟩ := Option.isSome_iff_exists.mp ((hinv.known n).mp (mem_of_lookup hmgr))
    rw [← hpos, hseq₀, hinv.reproSeq]
    exact (hinv.reads n mgr hmgr s hs).le
  obtain ⟨hseq, hrepros, hfile, hdir, hmanagers⟩ :=
    createManagers_spec names st₀ (fun n hn => (hmemDir n).mpr ((hnames n).mp hn)) hle
  obtain ⟨hlookup, hpos⟩ := forall_and.mp
    (createManagers_lookup hsafe hseq₀ hfiles₀ hempty₀ hnames hmanagers)
  have hmemManagers : ∀ n, n ∈ (Hub.createManagers st₀ names).managers ↔ n ∈ st.managers := by
    intro n
    rw [← lookup_isSome, hlookup, Option.isSome_map, lookup_isSome]
  exact
    { reproSeq := hseq.trans (hseq₀.trans hinv.reproSeq)
      records := by
        rw [hrepros, hrepros₀]
        exact hinv.records
      valid := hinv.valid
      distinct := hinv.distinct
      reproFile := hfile.trans (hfile₀.trans (hrepros.trans hrepros₀).symm)
      files := by
        intro n
        rw [hdir, hfiles₀, hlookup, Option.map_map]
        cases hold : st.managers.lookup n with
        | none => rfl
        | some mgr =>
          show some (some mgr.reproSeq) = some (some (st₀.createManager n).2.reproSeq)
          rw [hpos n mgr hold]
      names := fun n hn => hinv.names n ((hmemManagers n).mp hn)
      known := fun n => (hmemManagers n).trans (hinv.known n)
      reads := by
        intro n mgr' hmgr' s hs
        rw [hlookup, Option.mem_def, Option.map_eq_some_iff] at hmgr'
        obtain ⟨mgr, hold, rfl⟩ := hmgr'
        refine (hinv.reads n mgr hold s hs).reload (hpos n mgr hold) rfl rfl ?_
        intro i a hi ha
        exact hsafe.own n mgr hold (hash a.2) ⟨a.2, i + 1⟩
          ((hinv.records _ _).mpr ⟨i, a, ha, rfl, rfl⟩) (Nat.lt_succ_of_le hi)
      unknown := hinv.unknown
      foreign := hinv.foreign }

end CreateManagers

/-- A safe restart keeps the log. -/
lemma LogInv.restart (hinv : LogInv hash good st log) (hsafe : st.RestartSafe)
    (order : Shuffle Name) : LogInv hash good (st.restart hash order) log := by
  have hflush := SameRepros.of_onlyCorpora (OnlyCorpora.flush st)
  have hrepros : st.flush.dir.repros = st.repros := hflush.reproFile.trans hinv.reproFile
  have hfiles : ∀ n, (st.flush.dir.managers.lookup n).map ManagerDir.reproSeq =
      (st.managers.lookup n).map fun mgr => some mgr.reproSeq :=
    fun n => (hflush.files n).trans (hinv.files n)
  unfold State.restart make
  rw [hrepros, loadDB_repros hinv hsafe]
  apply (SameRepros.of_onlyCorpora (.purgeCorpus _)).logInv
  refine hinv.createManagers hsafe hinv.reproSeq.symm hfiles rfl (fun n => ?_) rfl rfl
  rw [mem_filter, order.mem_order, ← AList.mem_keys, mem_iff_of_map_lookup (hfiles n)]
  refine ⟨fun h => h.1, fun h => ⟨h, ?_⟩⟩
  rw [hinv.names n h]
  rfl

/-! ## Runs -/

/-- The conditions on an operation: managers do not connect afresh, no name has the suffix of a
purged directory, and restarts are safe. -/
def Op.Safe (st : State) : Op → Prop
  | .connect name _ fresh _ _ => fresh = false ∧ name.endsWith purgedSuffix = false
  | .restart _ => st.RestartSafe
  | _ => True

def SafeRun (hash : Input → Key) (st : State) : List Op → Prop
  | [] => True
  | op :: ops => op.Safe st ∧ SafeRun hash (step hash st op) ops

def Log.run (hash : Input → Key) (st : State) (log : Log) : List Op → Log
  | [] => log
  | op :: ops => (log.step hash st op).run hash (Hub.step hash st op) ops

/-- The operation does not connect the manager without a call of the program. -/
def Op.supports (name : Name) (input : Input) : Op → Bool
  | .connect name' _ _ calls _ => name' ≠ name || usable calls input
  | _ => true

/-- The program uses only calls of the manager. -/
def usesOnlyCallsOf (ops : List Op) (name : Name) (input : Input) : Bool :=
  ops.all fun op => op.supports name input

lemma step_logInv {op : Op} (hinv : LogInv hash good st log) (hsafe : op.Safe st)
    (hgood : ∀ n input, good n input = true → op.supports n input = true) :
    LogInv hash good (step hash st op) (log.step hash st op) := by
  cases op with
  | connect name domain fresh calls corpus =>
    obtain ⟨hfresh, hname⟩ := hsafe
    subst hfresh
    apply hinv.connect corpus hname
    intro input hinput
    simpa [Op.supports] using hgood name input hinput
  | sync name add del orders => exact (SameRepros.sync hash st name add del orders).logInv hinv
  | addRepro name repro => exact hinv.addRepro name repro
  | pendingRepro name order => exact hinv.pendingRepro name order
  | restart order => exact hinv.restart hsafe order

lemma run_logInv {ops : List Op} (hinv : LogInv hash good st log) (hsafe : SafeRun hash st ops)
    (hgood : ∀ op ∈ ops, ∀ n input, good n input = true → op.supports n input = true) :
    LogInv hash good (run hash st ops) (log.run hash st ops) := by
  induction ops generalizing st log with
  | nil => exact hinv
  | cons op ops ih =>
    exact ih (step_logInv hinv hsafe.1 (hgood op (.head _))) hsafe.2
      fun op' hop' => hgood op' (.tail _ hop')

/-- The log of a new hub is empty. -/
lemma logInv_init (hash : Input → Key) (good : Name → Input → Bool) :
    LogInv hash good (State.init hash) .empty where
  reproSeq := rfl
  records key rec := by
    constructor
    · intro h
      cases h
    · intro ⟨i, a, ha, _⟩
      cases ha
  valid _ h := by cases h
  distinct := nodup_nil
  reproFile := rfl
  files _ := rfl
  names _ h := by cases h
  known n := by
    constructor
    · intro h
      cases h
    · intro h
      cases h
  reads _ _ h := by cases h
  unknown _ _ := rfl
  foreign _ _ h := by cases h

/-- The number of a manager that asks for reproducers grows until nothing is found. -/
lemma polling_ends (hinv : LogInv hash good st log) (hmgr : mgr ∈ st.managers.lookup name)
    (hconn : mgr.connected = true) (orders : ℕ → Shuffle Entry) :
    ∃ k, ((run hash st ((List.range k).map fun i => .pendingRepro name (orders i))).pendingRepro
      name (orders k)).2 = .ok none := by
  induction hd : st.reproSeq - mgr.reproSeq using Nat.strong_induction_on
    generalizing st mgr log orders with
  | h d ih =>
    rcases pendingRepro_cases hinv hmgr hconn (orders 0) with ⟨heq, _⟩ | ⟨heq, _⟩ |
      ⟨i, a, heq, hi, ha, _⟩
    · exact ⟨0, congrArg Prod.snd heq⟩
    · exact ⟨0, congrArg Prod.snd heq⟩
    · have hlen := (List.getElem?_eq_some_iff.mp ha).1
      have hseq := hinv.reproSeq
      have hmgr' : (st.setReproSeq name (i + 1)).managers.lookup name =
        some { mgr with reproSeq := i + 1 } := lookup_modify_self hmgr
      have hnext := hinv.pendingRepro name (orders 0)
      rw [heq] at hnext
      obtain ⟨k, hk⟩ := ih (st.reproSeq - (i + 1)) (by omega) hnext hmgr' hconn
        (fun j => orders (j + 1)) rfl
      refine ⟨k + 1, ?_⟩
      rw [range_succ_eq_map, map_cons, map_map]
      have hstep : step hash st (.pendingRepro name (orders 0)) = st.setReproSeq name (i + 1) :=
        congrArg Prod.fst heq
      show ((run hash (step hash st (.pendingRepro name (orders 0))) _).pendingRepro _ _).2 = _
      rw [hstep]
      exact hk

/-- When nothing is left, a manager got all it was to get. -/
lemma pendingRepro_none {order : Shuffle Entry} (hinv : LogInv hash good st log)
    (hnone : (st.pendingRepro name order).2 = .ok none) {s : ℕ} (hs : s ∈ log.since name) :
    (log.returned name).filter (good name) =
      ((log.accepted.drop s).filter (isFor good name)).map Prod.snd := by
  have hname : name ∈ st.managers := (hinv.known name).mpr (Option.isSome_iff_exists.mpr ⟨s, hs⟩)
  obtain ⟨mgr, hmgr⟩ := mem_iff_exists_lookup.1 hname
  have hreads := hinv.reads name mgr hmgr s hs
  have hconn : mgr.connected = true := by
    by_contra hconn
    rw [State.pendingRepro, State.connected, Option.mem_def.mp hmgr] at hnone
    simp [hconn] at hnone
  rcases pendingRepro_cases hinv hmgr hconn order with ⟨_, hdone⟩ | ⟨_, hskip⟩ | ⟨i, a, heq, _⟩
  · rw [hreads.returned, hdone, hinv.reproSeq, segment_length]
  · have hfinish := (hreads.finish hconn hskip).returned
    rw [hfinish]
    show ((segment log.accepted s log.accepted.length).filter _).map _ = _
    rw [segment_length]
  · rw [heq] at hnone
    cases hnone

/-- In every run whose operations meet the conditions: no reproducer is returned to the manager it
comes from; a manager that asks until nothing is found has been returned the reproducers of the
other managers that were accepted since it first connected and use only its calls, in the order in
which they were accepted and each once; and a manager that keeps asking reaches that point. -/
theorem repros_survive_restarts (hash : Input → Key) (ops : List Op)
    (hsafe : SafeRun hash (State.init hash) ops) :
    (∀ name, ∀ repro ∈ (Log.empty.run hash (State.init hash) ops).returned name,
      (name, repro) ∉ (Log.empty.run hash (State.init hash) ops).accepted) ∧
    (∀ name order s, ((run hash (State.init hash) ops).pendingRepro name order).2 = .ok none →
      s ∈ (Log.empty.run hash (State.init hash) ops).since name →
      ((Log.empty.run hash (State.init hash) ops).returned name).filter
          (usesOnlyCallsOf ops name) =
        (((Log.empty.run hash (State.init hash) ops).accepted.drop s).filter
          fun a => a.1 ≠ name && usesOnlyCallsOf ops name a.2).map Prod.snd ∧
      ∀ a ∈ (Log.empty.run hash (State.init hash) ops).accepted.drop s, a.1 ≠ name →
        usesOnlyCallsOf ops name a.2 = true →
        ((Log.empty.run hash (State.init hash) ops).returned name).count a.2 = 1) ∧
    ∀ name mgr (orders : ℕ → Shuffle Entry),
      (run hash (State.init hash) ops).connected name = .ok mgr →
      ∃ k, ((run hash (run hash (State.init hash) ops)
        ((List.range k).map fun i => .pendingRepro name (orders i))).pendingRepro
          name (orders k)).2 = .ok none := by
  have hinv : LogInv hash (usesOnlyCallsOf ops) (run hash (State.init hash) ops)
      (Log.empty.run hash (State.init hash) ops) := by
    apply run_logInv (logInv_init hash _) hsafe
    intro op hop n input hinput
    exact all_eq_true.mp hinput op hop
  generalize Log.empty.run hash (State.init hash) ops = log at hinv
  -- the programs of the log are distinct
  have hdistinct : (log.accepted.map Prod.snd).Nodup := by
    have h := hinv.distinct
    rw [show (fun a : Name × Input => hash a.2) = hash ∘ Prod.snd from rfl, ← map_map] at h
    exact h.of_map
  refine ⟨?_, ?_, ?_⟩
  · intro name repro hrepro hmem
    obtain ⟨a, ha, hne, hval⟩ := hinv.foreign name repro hrepro
    apply hne
    have heq : a = (name, repro) := inj_on_of_nodup_map hdistinct ha hmem hval
    rw [heq]
  · intro name order s hnone hs
    have hreturned := pendingRepro_none hinv hnone hs
    refine ⟨hreturned, fun a ha hne hgood => ?_⟩
    have hcount : (log.returned name).count a.2 =
        ((log.returned name).filter (usesOnlyCallsOf ops name)).count a.2 :=
      (count_filter hgood).symm
    rw [hcount, hreturned]
    apply count_eq_one_of_mem
    · exact hdistinct.sublist ((filter_sublist.trans (drop_sublist _ _)).map _)
    · apply mem_map_of_mem
      rw [mem_filter]
      exact ⟨ha, by simp [isFor, hne, hgood]⟩
  · intro name mgr orders hconnected
    obtain ⟨hmgr, hconn⟩ := connected_eq_ok.1 hconnected
    exact polling_ends hinv hmgr hconn orders

lemma restartSafe_of_entries
    (hshort : ∀ e ∈ st.repros.entries, ((callSet e.2.val).toOption.all (·.2 ≤ maxCalls)) = true)
    (hposition : ∀ e ∈ st.managers.entries, e.2.reproSeq = 0 → st.reproSeq = 0)
    (hown : ∀ e ∈ st.managers.entries, ∀ r ∈ st.repros.entries,
      e.2.reproSeq < r.2.seq → r.1 ∉ e.2.ownRepros) : st.RestartSafe where
  short key rec hrec res hres := by
    have h := hshort ⟨key, rec⟩ (mem_lookup_iff.mp hrec)
    rw [hres] at h
    simpa [Except.toOption] using h
  position n mgr hmgr := hposition ⟨n, mgr⟩ (mem_lookup_iff.mp hmgr)
  own n mgr hmgr key rec hrec :=
    hown ⟨n, mgr⟩ (mem_lookup_iff.mp hmgr) ⟨key, rec⟩ (mem_lookup_iff.mp hrec)

/-- Two managers that can run `open`. -/
def connectBoth : List Op :=
  [.connect "foo" "" false [text "open"] [], .connect "bar" "" false [text "open"] []]

/-- The hub restarts between an upload and the answer to the other manager, which has already been
returned a reproducer. -/
def reloadRun : List Op :=
  connectBoth ++ [.addRepro "foo" (text "open()"), .pendingRepro "bar" .id,
    .addRepro "bar" (text "open(0x1)"), .restart .id] ++ connectBoth ++ [.pendingRepro "foo" .id]

theorem repros_survive_restarts_reloaded :
    SafeRun id (State.init id) reloadRun ∧
    ((run id (State.init id) reloadRun).pendingRepro "foo" .id).2 = .ok none ∧
    ((Log.empty.run id (State.init id) reloadRun).returned "foo").count (text "open(0x1)") = 1 := by
  have hsafe : SafeRun id (State.init id) reloadRun :=
    ⟨⟨rfl, by decide +kernel⟩, ⟨rfl, by decide +kernel⟩, trivial, trivial, trivial,
      restartSafe_of_entries (by decide +kernel) (by decide +kernel) (by decide +kernel),
      ⟨rfl, by decide +kernel⟩, ⟨rfl, by decide +kernel⟩, trivial, trivial⟩
  have hnone : ((run id (State.init id) reloadRun).pendingRepro "foo" .id).2 = .ok none := by
    decide +kernel
  refine ⟨hsafe, hnone, ?_⟩
  exact ((repros_survive_restarts id reloadRun hsafe).2.1 "foo" .id 0 hnone (by decide +kernel)).2
    ("bar", text "open(0x1)") (by decide +kernel) (by decide) (by decide +kernel)

/-- The hub restarts before the other manager has been returned anything. -/
def lossRun : List Op :=
  connectBoth ++ [.addRepro "foo" (text "open()"), .restart .id] ++ connectBoth

/-- The hub restarts when a manager has uploaded a reproducer while another one was ahead of it. -/
def echoRun : List Op :=
  connectBoth ++ [.addRepro "foo" (text "open()"), .addRepro "bar" (text "open(0x1)"),
    .addRepro "foo" (text "open(0x2)"), .restart .id] ++ connectBoth ++
    [.pendingRepro "foo" .id, .pendingRepro "foo" .id]

/-- A reproducer is lost, and a reproducer is returned to the manager it comes from. -/
theorem restart_loses_and_echoes :
    ((run id (State.init id) lossRun).pendingRepro "bar" .id).2 = .ok none ∧
    (Log.empty.run id (State.init id) lossRun).since "bar" = some 0 ∧
    (Log.empty.run id (State.init id) lossRun).accepted = [("foo", text "open()")] ∧
    usesOnlyCallsOf lossRun "bar" (text "open()") = true ∧
    (Log.empty.run id (State.init id) lossRun).returned "bar" = [] ∧
    ("foo", text "open(0x2)") ∈ (Log.empty.run id (State.init id) echoRun).accepted ∧
    text "open(0x2)" ∈ (Log.empty.run id (State.init id) echoRun).returned "foo" := by
  decide +kernel

end KConfuzz.Hub
