import KConfuzz.Lib.ExceptFold
import KConfuzz.Metadata.Store

/-!
# What the file says about the records

A flush writes all records, so the file is right after it, but loading drops records without a
signature or without actions, and refuses lines that are too long. And `Prune` reports success
without a flush when it removes nothing, whatever became of the last flush.
-/

namespace KConfuzz.Metadata

open Lib.FiniteMap Lib.ExceptFold List

variable {L : Type} (env : Env L)

/-! ## Operations that write the file and one that does not -/

/-- `Prune` finds nothing to remove. -/
def Op.RemovesNothing (records : Records) : Op → Prop
  | .prune keepSigs => ∀ sig ∈ records.keys, sig ∈ keepSigs
  | _ => False

/-- The record that an operation adds. -/
def Op.added : Op → Option CorpusMetadataRecord
  | .save corpusSig progData ctx => savedRecord env corpusSig progData ctx
  | _ => none

/-- The signatures whose records an operation leaves as they are. -/
def Op.Leaves (sig : String) : Op → Prop
  | .save corpusSig _ _ => sig ≠ corpusSig
  | .delete corpusSig => sig ≠ corpusSig
  | .prune keepSigs => sig ∈ keepSigs

variable {rec : CorpusMetadataRecord}

lemma corpusSig_of_savedRecord {corpusSig : String} {progData : List UInt8}
    {ctx : Option KConfuzzConfigContext} (h : savedRecord env corpusSig progData ctx = some rec) :
    rec.corpusSig = corpusSig ∧ ∀ a ∈ rec.actions, a.inRange none = true := by
  unfold savedRecord at h
  split at h
  · cases h
  · split_ifs at h
    cases h
    exact ⟨rfl, fun a ha => (mem_normalizeKConfuzzConfigActions.1 ha).2⟩

/-- What an operation does: nothing, or it changes the records as `added` and `Leaves` say, and
then tries to write them. -/
lemma step_spec (fails : Bool) (store : CorpusMetadataStore L) (op : Op) :
    (op.RemovesNothing store.records ∧ step env fails store op = (true, store)) ∨
    (¬ op.RemovesNothing store.records ∧ ∃ records : Records,
      step env fails store op = flushLocked env fails { store with records := records } ∧
      ∀ sig rec, rec ∈ records.lookup sig ↔
        (op.added env = some rec ∧ rec.corpusSig = sig) ∨
          (rec ∈ store.records.lookup sig ∧ op.Leaves sig)) := by
  have herase : ∀ corpusSig sig rec, rec ∈ (store.records.erase corpusSig).lookup sig ↔
      rec ∈ store.records.lookup sig ∧ sig ≠ corpusSig := by
    intro corpusSig sig rec
    by_cases h : sig = corpusSig
    · subst h
      simp
    · simp [AList.lookup_erase_ne h, h]
  cases op with
  | save corpusSig progData ctx =>
    refine .inr ⟨id, ?_⟩
    show ∃ records, save env fails corpusSig progData ctx store = _ ∧ _
    unfold save
    cases hsaved : savedRecord env corpusSig progData ctx with
    | none =>
      refine ⟨_, rfl, fun sig rec => ?_⟩
      rw [herase]
      simp [Op.added, Op.Leaves, hsaved]
    | some saved =>
      refine ⟨_, rfl, fun sig rec => ?_⟩
      have hsig := (corpusSig_of_savedRecord env hsaved).1
      rw [lookup_insert_eq]
      by_cases h : sig = corpusSig
      · simp only [h, if_true, Op.added, Op.Leaves, hsaved, ne_eq, not_true, and_false, or_false,
          Option.mem_def]
        constructor
        · intro hrec
          cases hrec
          exact ⟨rfl, hsig⟩
        · exact fun hrec => hrec.1
      · simp only [h, if_false, Op.added, Op.Leaves, hsaved, ne_eq, not_false_iff, and_true]
        constructor
        · exact .inr
        · rintro (⟨hrec, hrecsig⟩ | hrec)
          · cases hrec
            exact absurd (hrecsig.symm.trans hsig) h
          · exact hrec
  | delete corpusSig =>
    refine .inr ⟨id, _, rfl, fun sig rec => ?_⟩
    rw [herase]
    simp [Op.added, Op.Leaves]
  | prune keepSigs =>
    show (_ ∧ prune env fails keepSigs store = _) ∨ (_ ∧ ∃ records, prune env _ _ _ = _ ∧ _)
    by_cases hall : ∀ sig ∈ store.records.keys, sig ∈ keepSigs
    · exact .inl ⟨hall, if_pos hall⟩
    · refine .inr ⟨hall, _, if_neg hall, fun sig rec => ?_⟩
      rw [mem_lookup_keep]
      simp [Op.added, Op.Leaves]

variable {store : CorpusMetadataStore L}

/-- A predicate of transitions that every step satisfies. -/
lemma forall_mem_trace {T : Transition L → Prop} {I : CorpusMetadataStore L → Prop}
    (hstep : ∀ store op fails, I store →
      T ⟨store, op, fails, (step env fails store op).1, (step env fails store op).2⟩ ∧
        I (step env fails store op).2) (hstore : I store) (ops : List (Op × Bool)) :
    ∀ t ∈ trace env store ops, T t := by
  induction ops generalizing store with
  | nil => exact fun t ht => absurd ht not_mem_nil
  | cons op ops ih =>
    intro t ht
    obtain ⟨hfirst, hnext⟩ := hstep store op.1 op.2 hstore
    rcases mem_cons.mp ht with rfl | ht
    · exact hfirst
    · exact ih hnext t ht

/-! ## Errors -/

/-- The file is the one that a flush would write. -/
def Represents (store : CorpusMetadataStore L) : Prop := store.file = written env store.records

/-- Each `Prune` that finds nothing to remove comes when the last flush has not failed; `flushed`
says so for the start of the run. -/
def PrunesFlushed : Bool → List (Transition L) → Prop
  | _, [] => True
  | flushed, t :: ts =>
    (t.op.RemovesNothing t.pre.records → flushed = true ∧ PrunesFlushed flushed ts) ∧
      (¬ t.op.RemovesNothing t.pre.records → PrunesFlushed (!t.fails) ts)

/-- The file represents the records as long as the last flush has not failed. -/
lemma represents_of_prunesFlushed {flushed : Bool} {ops : List (Op × Bool)}
    (hstore : flushed = true → Represents env store)
    (hprunes : PrunesFlushed flushed (trace env store ops)) :
    ∀ t ∈ trace env store ops, t.op.RemovesNothing t.pre.records → Represents env t.pre := by
  induction ops generalizing store flushed with
  | nil => exact fun t ht => absurd ht not_mem_nil
  | cons op ops ih =>
    obtain ⟨hsame, hflush⟩ := hprunes
    dsimp only at hsame hflush
    intro t ht hnothing
    rcases mem_cons.mp ht with rfl | ht
    · exact hstore (hsame hnothing).1
    · rcases step_spec env op.2 store op.1 with ⟨hnone, hstep⟩ | ⟨hsome, records, hstep, -⟩
      · have hrest := (hsame hnone).2
        rw [hstep] at hrest ht
        exact ih hstore hrest t ht hnothing
      · refine ih (fun hok => ?_) (hflush hsome) t ht hnothing
        rw [hstep, flushLocked, if_neg (by simpa using hok)]
        rfl

/-- In every run, all operations that return nil leave a file that represents the records exactly
if each `Prune` that finds nothing to remove finds such a file. When the file represents the
records at the start, it is enough that no such `Prune` comes after a failed flush. -/
theorem nil_means_persisted_iff (store : CorpusMetadataStore L) (ops : List (Op × Bool)) :
    ((∀ t ∈ trace env store ops, t.ok = true → Represents env t.post) ↔
      ∀ t ∈ trace env store ops, t.op.RemovesNothing t.pre.records → Represents env t.pre) ∧
    (Represents env store → PrunesFlushed true (trace env store ops) →
      ∀ t ∈ trace env store ops, t.ok = true → Represents env t.post) := by
  have hiff : ∀ t ∈ trace env store ops, (t.ok = true → Represents env t.post) ↔
      (t.op.RemovesNothing t.pre.records → Represents env t.pre) := by
    refine forall_mem_trace env (I := fun _ => True) (fun store op fails _ => ⟨?_, trivial⟩)
      trivial ops
    rcases step_spec env fails store op with ⟨hnothing, hstep⟩ | ⟨hsome, records, hstep, -⟩
    · simp [hstep, hnothing]
    · rw [hstep]
      -- the flush fails, or writes the records
      cases fails with
      | true => simp [flushLocked, hsome]
      | false => simp [flushLocked, hsome, Represents]
  refine ⟨forall₂_congr hiff, fun hstore hprunes => ?_⟩
  exact (forall₂_congr hiff).mpr (represents_of_prunesFlushed env (fun _ => hstore) hprunes)

/-- Lines that are records. -/
def plainEnv : Env CorpusMetadataRecord where
  hashProg _ := ""
  hashContext _ := ""
  encode rec := rec
  unmarshal := some
  size _ := 0
  unmarshal_encode _ := rfl

/-- A context with one action. -/
def actionContext (beforeCall : ℤ) : KConfuzzConfigContext where
  strategy := kconfuzzConfigStrategySequence
  source := "test"
  configDependent := true
  actions := [{ beforeCall := beforeCall, paramID := 1, valueID := 1, flags := 0 }]

/-- `Save` fails to write the file, and a `Prune` that keeps the program returns nil. -/
theorem failed_save_is_reported_as_persisted :
    ∃ t ∈ trace plainEnv ⟨∅, none⟩
      [(.save "sig0" [] (some (actionContext 0)), true), (.prune ["sig0"], false)],
      t.ok = true ∧ ¬ Represents plainEnv t.post := by
  refine ⟨_, mem_cons_of_mem _ mem_cons_self, rfl, fun h => ?_⟩
  cases h

/-! ## Loading what was written -/

/-- `load` keeps the record of a line. -/
def Kept (rec : CorpusMetadataRecord) : Prop := ¬ (rec.corpusSig = "" ∨ rec.actions.length = 0)

instance (rec : CorpusMetadataRecord) : Decidable (Kept rec) := by
  unfold Kept
  infer_instance

lemma loadLine_encode (records : Records) (rec : CorpusMetadataRecord) :
    loadLine env records (env.encode rec) =
      if maxTokenSize ≤ env.size (env.encode rec) then .error .tokenTooLong
      else .ok (if Kept rec then records.insert rec.corpusSig rec else records) := by
  unfold loadLine Kept
  rw [env.unmarshal_encode, ite_not]
  dsimp only
  split_ifs
  · rfl
  · rfl
  · rfl

variable {records : Records}

/-- Loading the lines of some records of a map gives those that are kept. -/
lemma foldlM_loadLine {recs : List CorpusMetadataRecord}
    (hrecs : ∀ rec ∈ recs, records.lookup rec.corpusSig = some rec) (acc : Records) :
    (∃ loaded, (recs.map env.encode).foldlM (loadLine env) acc = .ok loaded ∧
        ∀ sig, loaded.lookup sig =
          if ∃ rec ∈ recs, rec.corpusSig = sig ∧ Kept rec then records.lookup sig
          else acc.lookup sig) ∧
        (∀ rec ∈ recs, env.size (env.encode rec) < maxTokenSize) ∨
      (∃ err, (recs.map env.encode).foldlM (loadLine env) acc = .error err) ∧
        ∃ rec ∈ recs, maxTokenSize ≤ env.size (env.encode rec) := by
  induction recs generalizing acc with
  | nil => exact .inl ⟨⟨acc, rfl, by simp⟩, by simp⟩
  | cons rec recs ih =>
    rw [map_cons, foldlM_cons, loadLine_encode]
    by_cases hsize : maxTokenSize ≤ env.size (env.encode rec)
    · rw [if_pos hsize]
      exact .inr ⟨⟨_, rfl⟩, rec, mem_cons_self, hsize⟩
    · rw [if_neg hsize]
      have hrec := hrecs rec mem_cons_self
      rcases ih (fun r hr => hrecs r (mem_cons_of_mem _ hr))
        (if Kept rec then acc.insert rec.corpusSig rec else acc) with
        ⟨⟨loaded, hloaded, hlookup⟩, hfit⟩ | ⟨herr, r, hr, hlong⟩
      · refine .inl ⟨⟨loaded, hloaded, fun sig => ?_⟩, ?_⟩
        · rw [hlookup]
          by_cases hkept : Kept rec ∧ rec.corpusSig = sig
          · obtain ⟨hkept, rfl⟩ := hkept
            simp [hkept, hrec]
          · have hother : (if Kept rec then acc.insert rec.corpusSig rec else acc).lookup sig =
                acc.lookup sig := by
              split_ifs with h
              · exact AList.lookup_insert_ne fun heq => hkept ⟨h, heq.symm⟩
              · rfl
            congr 1
            simp only [mem_cons, exists_eq_or_imp, eq_iff_iff]
            exact ⟨.inr, fun h => h.resolve_left fun h => hkept ⟨h.2, h.1⟩⟩
        · intro r hr
          rcases mem_cons.mp hr with rfl | hr
          · exact not_le.mp hsize
          · exact hfit r hr
      · exact .inr ⟨herr, r, mem_cons_of_mem _ hr, hlong⟩

lemma mem_sortedRecords : rec ∈ sortedRecords records ↔ ∃ sig, rec ∈ records.lookup sig := by
  simp only [sortedRecords, mem_filterMap, mem_insertionSort, Option.mem_def]
  constructor
  · exact fun ⟨sig, _, h⟩ => ⟨sig, h⟩
  · exact fun ⟨sig, h⟩ => ⟨sig, mem_iff_exists_lookup.2 ⟨rec, h⟩, h⟩

/-! ## Reopening the store -/

/-- Opening the store again gives one with the same contexts. -/
def Reopens (store : CorpusMetadataStore L) : Prop :=
  ∃ records, load env store.file = .ok records ∧
    ∀ sig p, context records sig p = context store.records sig p

/-- A record survives: its line is short enough, and it is kept or stands for no context. -/
def Restorable (rec : CorpusMetadataRecord) : Prop :=
  env.size (env.encode rec) < maxTokenSize ∧
    (Kept rec ∨ rec.actions = [] ∧ rec.configDependent = false)

/-- Records are stored under their signatures, and only those of `Save` can have none. -/
def Keyed (records : Records) : Prop :=
  ∀ sig rec, rec ∈ records.lookup sig →
    rec.corpusSig = sig ∧ (sig = "" → ∀ a ∈ rec.actions, a.inRange none = true)

/-- A record that is not kept must stand for no context. -/
lemma cloneForProg_eq_none_iff_of_not_kept (hkept : ¬ Kept rec)
    (hrange : rec.corpusSig = "" → ∀ a ∈ rec.actions, a.inRange none = true) :
    (∀ p, (metadataRecordContext rec).cloneForProg p = none) ↔
      rec.actions = [] ∧ rec.configDependent = false := by
  simp only [KConfuzzConfigContext.cloneForProg_eq_none_iff]
  constructor
  · intro h
    refine ⟨?_, (h none).2⟩
    rcases not_not.mp hkept with hsig | hlength
    · have hnil := normalizeKConfuzzConfigActions_eq_nil_iff.1 (h none).1
      rw [eq_nil_iff_forall_not_mem]
      intro a ha
      have hfalse := hnil a ha
      rw [hrange hsig a ha] at hfalse
      cases hfalse
    · exact length_eq_zero_iff.mp hlength
  · rintro ⟨hnil, hdependent⟩ p
    refine ⟨?_, hdependent⟩
    show normalizeKConfuzzConfigActions p rec.actions = []
    rw [hnil]
    rfl

/-- After a flush the store can be reopened exactly if all its records survive. -/
lemma reopens_written_iff (hkeyed : Keyed records) :
    Reopens env ⟨records, written env records⟩ ↔
      ∀ sig rec, rec ∈ records.lookup sig → Restorable env rec := by
  have hrecs : ∀ rec ∈ sortedRecords records, records.lookup rec.corpusSig = some rec := by
    intro rec hrec
    obtain ⟨sig, hsig⟩ := mem_sortedRecords.1 hrec
    rw [(hkeyed sig rec hsig).1]
    exact hsig
  have hload : load env (written env records) =
      ((sortedRecords records).map env.encode).foldlM (loadLine env) ∅ := by
    unfold written
    split_ifs with hempty
    · have hkeys := length_eq_zero_iff.mp hempty
      simp [load, sortedRecords, hkeys]
      rfl
    · rfl
  unfold Reopens
  rw [hload]
  rcases foldlM_loadLine env hrecs ∅ with ⟨⟨loaded, hloaded, hlookup⟩, hfit⟩ | ⟨⟨err, herr⟩, long⟩
  · rw [hloaded]
    have hsame : ∀ sig rec, rec ∈ records.lookup sig →
        ((∀ p, context loaded sig p = context records sig p) ↔
          Kept rec ∨ rec.actions = [] ∧ rec.configDependent = false) := by
      intro sig rec hrec
      obtain ⟨hsig, hrange⟩ := hkeyed sig rec hrec
      by_cases hkept : Kept rec
      · have heq : loaded.lookup sig = records.lookup sig := by
          rw [hlookup, if_pos ⟨rec, mem_sortedRecords.2 ⟨sig, hrec⟩, hsig, hkept⟩]
        simp [context, heq, hkept]
      · have hnone : loaded.lookup sig = none := by
          rw [hlookup, if_neg]
          · rfl
          · rintro ⟨rec', hrec', hsig', hkept'⟩
            have hlook := hrecs rec' hrec'
            rw [hsig', Option.mem_def.mp hrec] at hlook
            cases hlook
            exact hkept hkept'
        rw [← cloneForProg_eq_none_iff_of_not_kept hkept (by rw [hsig]; exact hrange)]
        simp only [context, hnone, Option.mem_def.mp hrec, Option.bind_none, Option.bind_some,
          hkept, false_or]
        exact forall_congr' fun p => eq_comm
    constructor
    · rintro ⟨records', heq, hcontext⟩ sig rec hrec
      cases heq
      exact ⟨hfit rec (mem_sortedRecords.2 ⟨sig, hrec⟩), (hsame sig rec hrec).mp (hcontext sig)⟩
    · intro h
      refine ⟨loaded, rfl, fun sig => ?_⟩
      cases hrec : records.lookup sig with
      | none =>
        have hnone : loaded.lookup sig = none := by
          rw [hlookup, hrec]
          split_ifs
          · rfl
          · rfl
        simp [context, hnone, hrec]
      | some rec => exact (hsame sig rec hrec).mpr (h sig rec hrec).2
  · rw [herr]
    obtain ⟨rec, hrec, hlong⟩ := long
    obtain ⟨sig, hsig⟩ := mem_sortedRecords.1 hrec
    constructor
    · rintro ⟨records', heq, -⟩
      cases heq
    · intro h
      exact absurd (h sig rec hsig).1 (not_lt.mpr hlong)

/-- An operation that writes the file can only add and leave records that survive, and one that
does not needs a file that is right already. -/
def Transition.Durable (t : Transition L) : Prop :=
  (t.op.RemovesNothing t.pre.records → Reopens env t.pre) ∧
    (¬ t.op.RemovesNothing t.pre.records → t.fails = false →
      (∀ rec, t.op.added env = some rec → Restorable env rec) ∧
        ∀ sig rec, rec ∈ t.pre.records.lookup sig → t.op.Leaves sig → Restorable env rec)

/-- Operations keep records under their signatures. -/
lemma keyed_step (hkeyed : Keyed store.records) (op : Op) (fails : Bool) :
    Keyed (step env fails store op).2.records := by
  rcases step_spec env fails store op with ⟨-, hstep⟩ | ⟨-, records, hstep, hrecords⟩
  · rw [hstep]
    exact hkeyed
  · have hflush : (flushLocked env fails { store with records := records }).2.records = records := by
      cases fails <;> rfl
    rw [hstep, hflush]
    intro sig rec hrec
    rcases (hrecords sig rec).mp hrec with ⟨hadded, hsig⟩ | ⟨hold, -⟩
    · cases op with
      | save corpusSig progData ctx =>
        exact ⟨hsig, fun _ => (corpusSig_of_savedRecord env hadded).2⟩
      | delete corpusSig => cases hadded
      | prune keepSigs => cases hadded
    · exact hkeyed sig rec hold

/-- One operation leaves a file that reopens right exactly if it is durable. -/
lemma reopens_step_iff (hkeyed : Keyed store.records) (op : Op) (fails : Bool) :
    ((step env fails store op).1 = true → Reopens env (step env fails store op).2) ↔
      Transition.Durable env ⟨store, op, fails, (step env fails store op).1,
        (step env fails store op).2⟩ := by
  have hpost := keyed_step env hkeyed op fails
  unfold Transition.Durable
  rcases step_spec env fails store op with ⟨hnothing, hstep⟩ | ⟨hsome, records, hstep, hrecords⟩
  · simp [hstep, hnothing]
  · rw [hstep] at hpost ⊢
    cases fails with
    | true => simp [flushLocked, hsome]
    | false =>
      have hwritten := reopens_written_iff env hpost
      simp only [flushLocked, Bool.false_eq_true, if_false, true_implies] at hwritten ⊢
      rw [hwritten]
      simp only [hsome, false_implies, not_false_eq_true, true_implies, true_and]
      constructor
      · intro h
        refine ⟨fun rec hadded => ?_, fun sig rec hold hleaves => ?_⟩
        · exact h rec.corpusSig rec ((hrecords _ _).mpr (.inl ⟨hadded, rfl⟩))
        · exact h sig rec ((hrecords _ _).mpr (.inr ⟨hold, hleaves⟩))
      · intro h sig rec hrec
        rcases (hrecords sig rec).mp hrec with ⟨hadded, -⟩ | ⟨hold, hleaves⟩
        · exact h.1 rec hadded
        · exact h.2 sig rec hold hleaves

/-- Loaded records are under their signatures. -/
lemma keyed_load {file : Option (List L)} (h : load env file = .ok records) : Keyed records := by
  cases file with
  | none =>
    cases h
    intro sig rec hrec
    cases hrec
  | some lines =>
    have hstart : Keyed ∅ := fun sig rec hrec => by cases hrec
    refine foldlM_invariant (fun _ => Keyed) (fun done acc line acc' hacc hline => ?_) hstart h
    unfold loadLine at hline
    split_ifs at hline
    split at hline
    · cases hline
    · split_ifs at hline with hdrop
      · cases hline
        exact hacc
      · cases hline
        intro sig rec' hrec'
        rw [lookup_insert_eq] at hrec'
        split_ifs at hrec' with hsig
        · cases hrec'
          refine ⟨hsig.symm, fun hempty => absurd (.inl ?_) hdrop⟩
          rw [← hsig, hempty]
        · exact hacc sig rec' hrec'

/-- In every run of an opened store, reopening gives the contexts of the live store after each
operation that returns nil exactly if every operation is durable. -/
theorem reopened_contexts_iff {file : Option (List L)} {records : Records}
    (hopen : load env file = .ok records) (ops : List (Op × Bool)) :
    (∀ t ∈ trace env ⟨records, file⟩ ops, t.ok = true → Reopens env t.post) ↔
      ∀ t ∈ trace env ⟨records, file⟩ ops, t.Durable env := by
  have hiff : ∀ t ∈ trace env ⟨records, file⟩ ops,
      (t.ok = true → Reopens env t.post) ↔ t.Durable env := by
    refine forall_mem_trace env (I := fun store => Keyed store.records)
      (fun store op fails hkeyed => ⟨?_, keyed_step env hkeyed op fails⟩) (keyed_load env hopen) ops
    exact reopens_step_iff env hkeyed op fails
  exact forall₂_congr hiff

/-- A context with an action in range is saved, and is there when the store is opened again. -/
theorem reopened_contexts_of_saved :
    load plainEnv none = .ok ∅ ∧
      ∀ t ∈ trace plainEnv ⟨∅, none⟩ [(.save "sig0" [] (some (actionContext 0)), false)],
        t.ok = true ∧ (context t.post.records "sig0" none).isSome ∧ Reopens plainEnv t.post := by
  refine ⟨rfl, fun t ht => ?_⟩
  have hok : t.ok = true ∧ (context t.post.records "sig0" none).isSome := by
    rw [mem_singleton.mp ht]
    decide
  refine ⟨hok.1, hok.2, (reopened_contexts_iff plainEnv rfl _).mpr (fun t ht => ?_) t ht hok.1⟩
  rw [mem_singleton.mp ht]
  refine ⟨False.elim, fun _ _ => ⟨fun rec hadded => ?_, fun sig rec hrec => by cases hrec⟩⟩
  cases hadded
  exact ⟨by decide, .inl (by decide)⟩

/-- A context whose only action has a negative index is in the live store, and gone when the store
is opened again. -/
theorem negative_actions_are_not_restored :
    ∃ t ∈ trace plainEnv ⟨∅, none⟩ [(.save "sig0" [] (some (actionContext (-1))), false)],
      t.ok = true ∧ ¬ Reopens plainEnv t.post := by
  refine ⟨_, mem_cons_self, rfl, ?_⟩
  rintro ⟨records, hload, hcontext⟩
  cases hload
  exact absurd (hcontext "sig0" none) (by decide)

end KConfuzz.Metadata
