import KConfuzz.Db.Database

/-!
# The corpus database keeps what was written

The file of an open database is a header with a log of records, the pending writes are the rest of
the log, and the cache is what the whole log denotes (`Refines`). Every operation keeps this, and
with it the count of records that decides when to compact (`Counted`). A `Flush` that fails keeps
it too if it stops at the end of a record; if it stops inside one, the next `Flush` appends behind
half a record.
-/

namespace KConfuzz.Db

open Lib.MapLog Denoted List Denoted Function

variable {env : Env} {fl : Flate}

/-! ## Maps and logs -/

/-- Reading a record back is one write to the map. -/
lemma lookup_applyRecord (records : Records) (rec : Key × Record) (key : Key) :
    (applyRecord records rec).lookup key =
      applyWrites (fun k => records.lookup k) [rec] key := by
  show _ = update (fun k => records.lookup k) rec.1 (written rec) key
  unfold applyRecord written
  by_cases hkey : key = rec.1
  · subst hkey
    rw [update_self]
    split
    · exact AList.lookup_erase _ _
    · exact AList.lookup_insert _
  · rw [update_of_ne hkey]
    split
    · exact AList.lookup_erase_ne hkey
    · exact AList.lookup_insert_ne hkey

lemma lookup_replay (records : Records) (recs : List (Key × Record)) :
    (fun key => (replay records recs).lookup key) =
      applyWrites (fun key => records.lookup key) recs :=
  (foldl_hom (fun (records : Records) key => records.lookup key) fun records rec =>
    (funext (lookup_applyRecord records rec)).symm).symm

lemma lookup_replay_empty (recs : List (Key × Record)) (key : Key) :
    (replay ∅ recs).lookup key = applyWrites (fun _ => none) recs key :=
  congrFun (lookup_replay ∅ recs) key

lemma mem_of_lookup_replay {recs : List (Key × Record)} {key : Key} {rec : Record}
    (h : (replay ∅ recs).lookup key = some rec) : (key, rec) ∈ recs ∧ rec.seq ≠ seqDeleted := by
  rw [lookup_replay_empty] at h
  obtain ⟨w, hw, rfl, hwritten⟩ := exists_write_of_applyWrites h
  unfold written at hwritten
  split at hwritten
  · cases hwritten
  · rename_i hseq
    cases hwritten
    exact ⟨hw, hseq⟩

/-! ### The records a compaction writes -/

variable {records : Records}

lemma mem_visited_iff {rec : Key × Record} :
    rec ∈ visited env records ↔ records.lookup rec.1 = some rec.2 := by
  show _ ↔ rec.2 ∈ records.lookup rec.1
  rw [AList.mem_lookup_iff, visited, mem_map]
  simp only [(env.visit_perm records.entries).mem_iff]
  constructor
  · rintro ⟨e, he, rfl⟩
    exact he
  · intro h
    exact ⟨_, h, rfl⟩

lemma length_visited (records : Records) :
    (visited env records).length = records.entries.length := by
  rw [visited, length_map, (env.visit_perm records.entries).length_eq]

lemma nodup_visited (records : Records) : ((visited env records).map Prod.fst).Nodup := by
  rw [visited, map_map]
  exact ((env.visit_perm records.entries).map Sigma.fst).nodup_iff.mpr records.keys_nodup

/-- Writing out all records and replaying them gives the map. -/
lemma lookup_replay_visited (hseq : ∀ key rec, records.lookup key = some rec → rec.seq ≠ seqDeleted)
    (key : Key) :
    (replay ∅ (visited env records)).lookup key = records.lookup key := by
  rw [lookup_replay_empty]
  cases hlookup : records.lookup key with
  | none =>
    apply applyWrites_of_notMem
    intro hmem
    obtain ⟨rec, hrec, rfl⟩ := mem_map.mp hmem
    rw [mem_visited_iff.1 hrec] at hlookup
    cases hlookup
  | some rec =>
    have hmem : (key, rec) ∈ visited env records := mem_visited_iff.2 hlookup
    have hvalue : applyWrites (fun _ => none) (visited env records) key =
        written (key, rec) := applyWrites_of_nodup (nodup_visited records) hmem
    refine hvalue.trans ?_
    rw [written, if_neg (hseq key rec hlookup)]

lemma length_entries_of_mem_iff {records' : Records} (h : ∀ key, key ∈ records ↔ key ∈ records') :
    records.entries.length = records'.entries.length := by
  have hperm : records.keys.Perm records'.keys := by
    rw [perm_ext_iff_of_nodup records.keys_nodup records'.keys_nodup]
    intro key
    exact h key
  have hlen := hperm.length_eq
  simpa [AList.keys, keys] using hlen

lemma lookup_discardVals (records : Records) (key : Key) :
    (discardVals records).lookup key =
      (records.lookup key).map fun rec => { rec with val := [] } :=
  dlookup_map₂ key

/-! ## The invariant -/

/-- A record as the cache holds it. -/
def cached (discarded : Bool) (rec : Record) : Record :=
  if discarded then { rec with val := [] } else rec

/-- The state of the database and of its file, whose log is `recs`, against what the operations
denote. -/
structure Refines (env : Env) (recs : List (Key × Record)) (s : System) (d : Denoted) : Prop where
  file : s.file = dbFile env.flate d.version recs
  fits : ∀ rec ∈ recs, Fits env.flate rec
  saved : d.saved = Denoted.applyWrites (fun _ => none) recs
  map : d.map = Denoted.applyWrites d.saved d.log
  log_fits : ∀ rec ∈ d.log, Fits env.flate rec
  pending : s.db.pending =
    if d.log.length = 0 then none else some (d.log.flatMap (recordBytes env.flate))
  version : s.db.version = d.version
  discarded : s.db.dataDiscarded = d.discarded
  records : ∀ key, s.db.records.lookup key = (d.map key).map (cached d.discarded)

/-- The number of records, and the bound on those in the file when nothing is pending. -/
structure Counted (recs : List (Key × Record)) (s : System) (d : Denoted) : Prop where
  uncompacted : s.db.uncompacted = recs.length + d.log.length
  bound : d.log.length = 0 → 9 * recs.length ≤ 10 * s.db.records.entries.length + 71

section Invariant

variable {recs : List (Key × Record)} {s : System} {d : Denoted}

lemma Counted.write (h : Counted recs s d) {s' : System}
    (huncompacted : s'.db.uncompacted = s.db.uncompacted + 1) (rec : Key × Record) :
    Counted recs s' (d.write rec) := by
  have hlen : (d.write rec).log.length = d.log.length + 1 := length_append
  refine { uncompacted := ?_, bound := ?_ }
  · rw [huncompacted, h.uncompacted, hlen, Nat.add_assoc]
  · omega

namespace Refines

section

variable (h : Refines env recs s d)

include h

lemma map_eq_replay (key : Key) : d.map key = (replay ∅ (recs ++ d.log)).lookup key := by
  rw [lookup_replay_empty, h.map, h.saved]
  exact (congrFun (applyWrites_append _ recs d.log) key).symm

lemma fits_append : ∀ rec ∈ recs ++ d.log, Fits env.flate rec :=
  forall_mem_append.mpr ⟨h.fits, h.log_fits⟩

lemma fits_of_map {key : Key} {rec : Record}
    (hmap : d.map key = some rec) : Fits env.flate (key, rec) ∧ rec.seq ≠ seqDeleted := by
  rw [h.map_eq_replay] at hmap
  have hmem := mem_of_lookup_replay hmap
  exact ⟨h.fits_append _ hmem.1, hmem.2⟩

lemma map_eq_saved (hlog : d.log.length = 0) : d.map = d.saved := by
  rw [h.map, length_eq_zero_iff.mp hlog]
  rfl

lemma pending_getD : s.db.pending.getD [] = d.log.flatMap (recordBytes env.flate) := by
  rw [h.pending]
  split
  · rename_i hlog
    rw [length_eq_zero_iff.mp hlog]
    rfl
  · rfl

omit h in
lemma deserialize (hround : env.flate.RoundTrips) (h : Refines env recs s d) :
    deserializeDB env.flate s.file = ⟨d.version, replay ∅ recs, recs.length, none⟩ := by
  rw [h.file]
  exact deserializeDB_dbFile hround h.fits d.version

lemma mem_records_iff (key : Key) : key ∈ s.db.records ↔ (d.map key).isSome := by
  rw [← AList.lookup_isSome, h.records, Option.isSome_map]

lemma length_records (hrecords : ∀ key, records.lookup key = d.map key) :
    s.db.records.entries.length = records.entries.length := by
  apply length_entries_of_mem_iff
  intro key
  rw [h.mem_records_iff, ← AList.lookup_isSome, hrecords]

/-! ### Compaction -/

omit h in
/-- A compaction writes a file that denotes the same map, with one record for every key. -/
lemma compact (hround : env.flate.RoundTrips) (h : Refines env recs s d)
    (hlog : d.log.length = 0) (version : UInt64) :
    ∃ recs' s', System.compact env ⟨{ s.db with version := version }, s.file⟩ = .ok (s', none) ∧
      Refines env recs' s' { d with version := version } ∧
      Counted recs' s' { d with version := version } := by
  -- the records it writes, from the file if the cache has no values
  let records := if s.db.dataDiscarded then replay ∅ recs else s.db.records
  have hrecords : ∀ key, records.lookup key = d.map key := by
    intro key
    show (if s.db.dataDiscarded then replay ∅ recs else s.db.records).lookup key = d.map key
    split
    · rw [h.map_eq_replay, length_eq_zero_iff.mp hlog, append_nil]
    · rename_i hdata
      have hfalse : d.discarded = false := by
        rw [← h.discarded]
        exact Bool.eq_false_iff.mpr hdata
      rw [h.records, hfalse]
      exact Option.map_id'
  have hseq : ∀ key rec, records.lookup key = some rec → rec.seq ≠ seqDeleted := by
    intro key rec hlookup
    rw [hrecords] at hlookup
    exact (h.fits_of_map hlookup).2
  have hload := h.deserialize hround
  refine ⟨visited env records,
    ⟨⟨version, s.db.records, records.entries.length, s.db.pending, s.db.dataDiscarded⟩,
      dbFile env.flate version (visited env records)⟩, ?_, ?_, ?_⟩
  · simp only [System.compact, h.pending, if_pos hlog, Option.isSome_none, Bool.false_eq_true,
      if_false, hload, ite_self, records]
  · refine { file := rfl, fits := ?_, saved := ?_, map := h.map, log_fits := h.log_fits,
             pending := h.pending, version := rfl, discarded := h.discarded,
             records := h.records }
    · intro rec hrec
      have hlookup := mem_visited_iff.1 hrec
      rw [hrecords] at hlookup
      exact (h.fits_of_map hlookup).1
    · funext key
      rw [← lookup_replay_empty, lookup_replay_visited hseq, hrecords, h.map_eq_saved hlog]
  · refine { uncompacted := ?_, bound := fun _ => ?_ }
    · show records.entries.length = (visited env records).length + d.log.length
      rw [length_visited, hlog, Nat.add_zero]
    · show 9 * (visited env records).length ≤ 10 * s.db.records.entries.length + 71
      rw [length_visited, h.length_records hrecords]
      omega

/-! ### Flush -/

lemma flush_eq_self (hlog : d.log.length = 0) : d.flush = d := by
  have hmap := h.map_eq_saved hlog
  have hnil := length_eq_zero_iff.mp hlog
  show (⟨d.map, d.version, d.discarded, [], d.map⟩ : Denoted) =
    ⟨d.map, d.version, d.discarded, d.log, d.saved⟩
  rw [hnil, hmap]

lemma append_pending :
    Refines env (recs ++ d.log) ⟨{ s.db with pending := none },
      s.file ++ d.log.flatMap (recordBytes env.flate)⟩ d.flush := by
  refine { file := ?_, fits := h.fits_append, saved := ?_, map := rfl, log_fits := ?_,
           pending := rfl, version := h.version, discarded := h.discarded, records := h.records }
  · show s.file ++ _ = dbFile env.flate d.version (recs ++ d.log)
    rw [h.file, dbFile, dbFile, flatMap_append, append_assoc]
  · show d.map = _
    rw [h.map, h.saved]
    exact (applyWrites_append _ recs d.log).symm
  · intro rec hrec
    cases hrec

end

section

variable (hround : env.flate.RoundTrips) (h : Refines env recs s d)

include hround h

/-- A flush that succeeds saves what was written. -/
lemma flush :
    ∃ recs' s', s.flush env = .ok (s', none) ∧ Refines env recs' s' d.flush ∧
      (Counted recs s d → Counted recs' s' d.flush) := by
  by_cases hlog : d.log.length = 0
  · -- nothing is pending
    have hself := h.flush_eq_self hlog
    refine ⟨recs, s, ?_, ?_, ?_⟩
    · rw [System.flush, h.pending, if_pos hlog]
    · rw [hself]
      exact h
    · rw [hself]
      exact id
  · have happend := h.append_pending
    have hflush : s.flush env =
        if s.db.uncompacted / 10 * 9 < s.db.records.entries.length then
          .ok (⟨{ s.db with pending := none },
            s.file ++ d.log.flatMap (recordBytes env.flate)⟩, none)
        else System.compact env ⟨{ s.db with pending := none },
            s.file ++ d.log.flatMap (recordBytes env.flate)⟩ := by
      rw [System.flush, h.pending, if_neg hlog]
    by_cases hfew : s.db.uncompacted / 10 * 9 < s.db.records.entries.length
    · refine ⟨_, _, hflush.trans (if_pos hfew), happend, ?_⟩
      intro hcount
      have huncompacted := hcount.uncompacted
      refine { uncompacted := ?_, bound := fun _ => ?_ }
      · show s.db.uncompacted = (recs ++ d.log).length + 0
        rw [huncompacted, length_append, Nat.add_zero]
      · show 9 * (recs ++ d.log).length ≤ 10 * s.db.records.entries.length + 71
        rw [length_append]
        omega
    · obtain ⟨recs', s', hcompact, hrefines, hcounted⟩ := happend.compact hround rfl s.db.version
      rw [h.version] at hrefines hcounted
      exact ⟨recs', s', hflush.trans ((if_neg hfew).trans hcompact), hrefines, fun _ => hcounted⟩

/-- A new version is saved together with the records. -/
lemma bumpVersion (version : UInt64) :
    ∃ recs' s', s.bumpVersion env version = .ok (s', none) ∧
      Refines env recs' s' { d.flush with version := version } ∧
      (Counted recs s d → Counted recs' s' { d.flush with version := version }) := by
  obtain ⟨recs₁, s₁, hflush, hrefines, hcounted⟩ := h.flush hround
  have hbump : s.bumpVersion env version =
      if s₁.db.version = version then .ok (s₁, none)
      else System.compact env ⟨{ s₁.db with version := version }, s₁.file⟩ := by
    rw [System.bumpVersion, hflush]
    rfl
  by_cases hversion : s₁.db.version = version
  · have hself : { d.flush with version := version } = d.flush := by
      rw [← hversion, hrefines.version]
    rw [hself]
    exact ⟨recs₁, s₁, hbump.trans (if_pos hversion), hrefines, hcounted⟩
  · obtain ⟨recs', s', hcompact, hrefines', hcounted'⟩ := hrefines.compact hround rfl version
    exact ⟨recs', s', hbump.trans ((if_neg hversion).trans hcompact), hrefines', fun _ => hcounted'⟩

/-- Opening the file again gives the saved records. -/
lemma openDB (repair : Bool) :
    ∃ recs' s', Db.openDB env s.file repair = .ok (s', none) ∧
      Refines env recs' s' { d with map := d.saved, log := [], discarded := false } ∧
      Counted recs' s' { d with map := d.saved, log := [], discarded := false } := by
  have hload := h.deserialize hround
  have hopened : Refines env recs ⟨⟨d.version, replay ∅ recs, recs.length, none, false⟩, s.file⟩
      { d with map := d.saved, log := [], discarded := false } := by
    refine { file := h.file, fits := h.fits, saved := h.saved, map := rfl, log_fits := ?_,
             pending := rfl, version := rfl, discarded := rfl, records := ?_ }
    · intro rec hrec
      cases hrec
    · intro key
      show (replay ∅ recs).lookup key = (d.saved key).map (cached false)
      rw [lookup_replay_empty, h.saved]
      exact Option.map_id'.symm
  obtain ⟨recs', s', hcompact, hrefines, hcounted⟩ := hopened.compact hround rfl d.version
  refine ⟨recs', s', ?_, hrefines, hcounted⟩
  rw [Db.openDB, hload]
  simp only [ite_self, hcompact]
  rfl

end

/-! ### Writes -/

section

variable (h : Refines env recs s d)

include h

/-- A write to the pending buffer is a write to the map. -/
lemma write {rec : Key × Record} (hfits : Fits env.flate rec)
    (hrecords : ∀ key, records.lookup key =
      ((d.write rec).map key).map (cached d.discarded)) (uncompacted : ℕ) :
    Refines env recs ⟨{ s.db.serialize env rec.1 rec.2.val rec.2.seq with
      records := records, uncompacted := uncompacted }, s.file⟩ (d.write rec) := by
  refine { file := h.file, fits := h.fits, saved := h.saved, map := ?_, log_fits := ?_,
           pending := ?_, version := h.version, discarded := h.discarded,
           records := hrecords }
  · show applyWrites d.map [rec] = applyWrites d.saved (d.log ++ [rec])
    rw [h.map]
    exact (applyWrites_append d.saved d.log [rec]).symm
  · exact forall_mem_append.mpr ⟨h.log_fits, forall_mem_singleton.mpr hfits⟩
  · show some (s.db.pending.getD [] ++ serializeRecord env.flate rec.1 rec.2.val rec.2.seq) =
      if (d.log ++ [rec]).length = 0 then none
      else some ((d.log ++ [rec]).flatMap (recordBytes env.flate))
    rw [h.pending_getD, if_neg (by simp), flatMap_append, flatMap_singleton]
    rfl

lemma isSaved_iff (key : Key) (val : List UInt8) (seq : UInt64) :
    s.db.isSaved key val seq = true ↔
      ∃ old ∈ d.map key, seq = old.seq ∧ (d.discarded ∨ val = old.val) := by
  rw [DB.isSaved, h.records key, h.discarded]
  cases d.map key with
  | none => simp
  | some old => cases d.discarded <;> simp [cached]

/-- Saving something new writes it. -/
lemma save_write {key : Key} {val : List UInt8} {seq : UInt64}
    (hfits : Fits env.flate (key, ⟨val, seq⟩)) (hseq : seq ≠ seqDeleted)
    (hnew : ¬ s.db.isSaved key val seq) :
    ∃ db, s.db.save env key val seq = .ok db ∧
      Refines env recs ⟨db, s.file⟩ (d.write (key, ⟨val, seq⟩)) ∧
      (Counted recs s d → Counted recs ⟨db, s.file⟩ (d.write (key, ⟨val, seq⟩))) := by
  have hrecords : ∀ k, (s.db.records.insert key
      ⟨if s.db.dataDiscarded then [] else val, seq⟩).lookup k =
        ((d.write (key, ⟨val, seq⟩)).map k).map (cached d.discarded) := by
    intro k
    show _ = (update d.map key (written (key, ⟨val, seq⟩)) k).map (cached d.discarded)
    by_cases hk : k = key
    · subst hk
      rw [AList.lookup_insert, update_self, written, if_neg hseq, h.discarded,
        Option.map_some, cached]
      cases d.discarded <;> rfl
    · rw [AList.lookup_insert_ne hk, update_of_ne hk, h.records]
  refine ⟨_, ?_, h.write hfits hrecords (s.db.uncompacted + 1), ?_⟩
  · rw [DB.save, if_neg hseq, if_neg hnew]
    rfl
  · intro hcount
    exact hcount.write rfl _

/-- Saving refines the denoted save. -/
lemma save {key : Key} {val : List UInt8} {seq : UInt64} (hfits : Fits env.flate (key, ⟨val, seq⟩))
    (hseq : seq ≠ seqDeleted) :
    ∃ db, s.db.save env key val seq = .ok db ∧
      Refines env recs ⟨db, s.file⟩ (d.save key ⟨val, seq⟩) ∧
      (Counted recs s d → Counted recs ⟨db, s.file⟩ (d.save key ⟨val, seq⟩)) := by
  have hsaved := h.isSaved_iff key val seq
  cases hmap : d.map key with
  | none =>
    simp only [Denoted.save, hmap]
    exact h.save_write hfits hseq (by simp [hsaved, hmap])
  | some old =>
    simp only [hmap, Option.mem_some_iff, exists_eq_left'] at hsaved
    simp only [Denoted.save, hmap]
    by_cases hold : seq = old.seq ∧ (d.discarded ∨ val = old.val)
    · rw [if_pos hold]
      refine ⟨s.db, ?_, h, id⟩
      rw [DB.save, if_neg hseq, if_pos (hsaved.mpr hold)]
    · rw [if_neg hold]
      exact h.save_write hfits hseq (mt hsaved.mp hold)

/-- Deleting refines the denoted deletion. -/
lemma delete (key : Key) :
    Refines env recs ⟨s.db.delete env key, s.file⟩ (d.delete key) ∧
      (Counted recs s d → Counted recs ⟨s.db.delete env key, s.file⟩ (d.delete key)) := by
  have hmem := h.mem_records_iff key
  cases hmap : d.map key with
  | none =>
    rw [hmap] at hmem
    simp only [Denoted.delete, hmap]
    rw [DB.delete, if_neg (fun hkey => Bool.noConfusion (hmem.mp hkey))]
    exact ⟨h, id⟩
  | some old =>
    rw [hmap] at hmem
    have hfits : Fits env.flate (key, ⟨[], seqDeleted⟩) :=
      ⟨(h.fits_of_map hmap).1.key_lt, fun hval => absurd rfl hval, fun _ => rfl⟩
    have hrecords : ∀ k, (s.db.records.erase key).lookup k =
        ((d.write (key, ⟨[], seqDeleted⟩)).map k).map (cached d.discarded) := by
      intro k
      show _ = (update d.map key none k).map (cached d.discarded)
      by_cases hk : k = key
      · subst hk
        rw [AList.lookup_erase, update_self, Option.map_none]
      · rw [AList.lookup_erase_ne hk, update_of_ne hk, h.records]
    simp only [Denoted.delete, hmap]
    rw [DB.delete, if_pos (hmem.mpr rfl)]
    exact ⟨h.write hfits hrecords (s.db.uncompacted + 1), fun hcount => hcount.write rfl _⟩

/-- Discarding the data leaves the denoted map as it is. -/
lemma discardData :
    Refines env recs ⟨s.db.discardData, s.file⟩ { d with discarded := true } ∧
      (Counted recs s d →
        Counted recs ⟨s.db.discardData, s.file⟩ { d with discarded := true }) := by
  have hlen : s.db.discardData.records.entries.length = s.db.records.entries.length := length_map _
  constructor
  · refine { h with discarded := rfl, records := ?_ }
    intro key
    show (discardVals s.db.records).lookup key = (d.map key).map (cached true)
    rw [lookup_discardVals, h.records, Option.map_map]
    congr 1
    funext rec
    cases d.discarded <;> rfl
  · intro hcount
    refine { uncompacted := hcount.uncompacted, bound := ?_ }
    rw [hlen]
    exact hcount.bound

/-- A `Flush` that fails at the end of a record leaves a file with some of the writes, which the
next `Flush` does again. -/
lemma failedFlush {written : ℕ} (hend : written ∈ recordEnds env.flate 0 d.log) :
    Refines env (recs ++ complete env.flate d.log written) (s.failedFlush written).1
      (d.failedFlush env.flate written) := by
  have hfile : (s.failedFlush written).1 =
      ⟨s.db, s.file ++ (d.log.flatMap (recordBytes env.flate)).take written⟩ := by
    rw [System.failedFlush, h.pending]
    by_cases hlog : d.log.length = 0
    · rw [if_pos hlog, length_eq_zero_iff.mp hlog, flatMap_nil, take_nil, append_nil]
    · rw [if_neg hlog]
  rw [hfile]
  refine { file := ?_, fits := ?_, saved := ?_, map := ?_, log_fits := h.log_fits,
           pending := h.pending, version := h.version, discarded := h.discarded,
           records := h.records }
  · show s.file ++ _ = dbFile env.flate d.version (recs ++ _)
    rw [take_of_mem_recordEnds hend, h.file, dbFile, dbFile, flatMap_append, append_assoc]
  · refine forall_mem_append.mpr ⟨h.fits, fun rec hrec => ?_⟩
    exact h.log_fits rec (mem_of_mem_complete hrec)
  · show Denoted.applyWrites d.saved _ = _
    rw [h.saved]
    exact (applyWrites_append _ recs _).symm
  · show d.map = applyWrites (applyWrites d.saved _) d.log
    rw [h.map]
    exact (applyWrites_redo (fun rec hrec => mem_of_mem_complete hrec) d.saved).symm

end

end Refines

end Invariant

/-! ## Runs -/

/-- The argument of an operation can be stored: lengths of at most 32 bits, and not the sequence
number that marks deletions. -/
def Op.Fits (fl : Flate) : Op → Prop
  | .save key val seq => Db.Fits fl (key, ⟨val, seq⟩) ∧ seq ≠ seqDeleted
  | _ => True

/-- All file operations of the call succeed. -/
def Op.Succeeds : Op → Prop
  | .failedFlush _ => False
  | _ => True

/-- A `Flush` that fails has written whole records. -/
def Op.WritesWhole (fl : Flate) (d : Denoted) : Op → Prop
  | .failedFlush written => written ∈ recordEnds fl 0 d.log
  | _ => True

variable {op : Op}

lemma Op.Succeeds.writesWhole (h : op.Succeeds) (fl : Flate) (d : Denoted) :
    op.WritesWhole fl d := by
  cases op with
  | failedFlush written => exact h.elim
  | _ => trivial

/-- One operation refines what it denotes. -/
lemma step_refines (hround : env.flate.RoundTrips) {recs : List (Key × Record)} {s : System}
    {d : Denoted} (h : Refines env recs s d) (hfits : op.Fits env.flate)
    (hwhole : op.WritesWhole env.flate d) :
    ∃ recs' s' err, step env s op = .ok (s', err) ∧ Refines env recs' s' (d.step env.flate op) ∧
      (op.Succeeds → err = none ∧ (Counted recs s d →
        Counted recs' s' (d.step env.flate op))) := by
  cases op with
  | save key val seq =>
    obtain ⟨db, hsave, hrefines, hcounted⟩ := h.save hfits.1 hfits.2
    refine ⟨recs, ⟨db, s.file⟩, none, ?_, hrefines, fun _ => ⟨rfl, hcounted⟩⟩
    rw [step, hsave]
    rfl
  | delete key => exact ⟨recs, _, none, rfl, (h.delete key).1, fun _ => ⟨rfl, (h.delete key).2⟩⟩
  | discardData => exact ⟨recs, _, none, rfl, h.discardData.1, fun _ => ⟨rfl, h.discardData.2⟩⟩
  | flush =>
    obtain ⟨recs', s', hflush, hrefines, hcounted⟩ := h.flush hround
    exact ⟨recs', s', none, hflush, hrefines, fun _ => ⟨rfl, hcounted⟩⟩
  | failedFlush written =>
    exact ⟨_, _, _, rfl, h.failedFlush hwhole, fun hsucceeds => hsucceeds.elim⟩
  | bumpVersion version =>
    obtain ⟨recs', s', hbump, hrefines, hcounted⟩ := h.bumpVersion hround version
    exact ⟨recs', s', none, hbump, hrefines, fun _ => ⟨rfl, hcounted⟩⟩
  | reopen repair =>
    obtain ⟨recs', s', hopen, hrefines, hcounted⟩ := h.openDB hround repair
    exact ⟨recs', s', none, hopen, hrefines, fun _ => ⟨rfl, fun _ => hcounted⟩⟩

/-- Every `Flush` of a run that fails has written whole records. -/
def RunWritesWhole (fl : Flate) : Denoted → List Op → Prop
  | _, [] => True
  | d, op :: ops => op.WritesWhole fl d ∧ RunWritesWhole fl (d.step fl op) ops

/-- A run refines what its operations denote. -/
lemma run_refines (hround : env.flate.RoundTrips) {recs : List (Key × Record)} {s : System}
    {d : Denoted} (h : Refines env recs s d) {ops : List Op}
    (hfits : ∀ op ∈ ops, op.Fits env.flate) (hwhole : RunWritesWhole env.flate d ops) :
    ∃ recs' s', run env s ops = .ok s' ∧ Refines env recs' s' (d.run env.flate ops) ∧
      ((∀ op ∈ ops, op.Succeeds) → Counted recs s d →
        Counted recs' s' (d.run env.flate ops)) := by
  induction ops generalizing recs s d with
  | nil => exact ⟨recs, s, rfl, h, fun _ => id⟩
  | cons op ops ih =>
    obtain ⟨recs₁, s₁, err, hstep, hrefines, hcounted⟩ :=
      step_refines hround h (hfits op mem_cons_self) hwhole.1
    obtain ⟨recs', s', hrun, hrefines', hcounted'⟩ :=
      ih hrefines (fun o ho => hfits o (mem_cons_of_mem op ho)) hwhole.2
    refine ⟨recs', s', ?_, hrefines', ?_⟩
    · rw [run, hstep]
      exact hrun
    · intro hsucceeds hcount
      exact hcounted' (fun o ho => hsucceeds o (mem_cons_of_mem op ho))
        ((hcounted (hsucceeds op mem_cons_self)).2 hcount)

lemma openDB_new (env : Env) (repair : Bool) :
    ∃ s, openDB env [] repair = .ok (s, none) ∧ Refines env [] s .empty ∧ Counted [] s .empty := by
  have hvisited : visited env ∅ = [] := by
    rw [← length_eq_zero_iff, length_visited]
    rfl
  refine ⟨⟨⟨0, ∅, 0, none, false⟩, dbFile env.flate 0 []⟩, ?_, ?_, ?_⟩
  · rw [← hvisited]
    cases repair <;> rfl
  · exact { file := rfl, fits := by simp, saved := rfl, map := rfl, log_fits := by simp [empty],
            pending := rfl, version := rfl, discarded := rfl, records := fun _ => rfl }
  · exact { uncompacted := rfl, bound := fun _ => by simp }

lemma runWritesWhole_of_succeeds {ops : List Op} (h : ∀ op ∈ ops, op.Succeeds)
    (fl : Flate) (d : Denoted) : RunWritesWhole fl d ops := by
  induction ops generalizing d with
  | nil => trivial
  | cons op ops ih =>
    exact ⟨(h op mem_cons_self).writesWhole fl d, ih (fun o ho => h o (mem_cons_of_mem op ho)) _⟩

/-- A compressor and an order in which a map is visited. -/
def markedEnv : Env := ⟨markedFlate, id, fun _ => List.Perm.refl _⟩

/-! ### Without failures -/

/-- `Flush` and `BumpVersion` bring the file up to date. -/
def Op.Flushes : Op → Prop
  | .flush => True
  | .bumpVersion _ => True
  | _ => False

lemma Op.Flushes.log_step (h : op.Flushes) (fl : Flate) (d : Denoted) :
    (d.step fl op).log.length = 0 := by
  cases op with
  | flush => rfl
  | bumpVersion version => rfl
  | _ => exact h.elim

lemma Op.Flushes.succeeds (h : op.Flushes) : op.Succeeds := by
  cases op with
  | failedFlush written => exact h.elim
  | _ => trivial

lemma Op.Flushes.fits (h : op.Flushes) (fl : Flate) : op.Fits fl := by
  cases op with
  | save key val seq => exact h.elim
  | _ => trivial

/-- After every `Flush` and every `BumpVersion` of a run in which all file operations succeed, the
file is read back without an error to the map and the version that the operations denote, and it
has few records that are not live. -/
theorem flush_denotes (hround : env.flate.RoundTrips) (repair : Bool) {ops : List Op} (op : Op)
    (hfits : ∀ o ∈ ops, o.Fits env.flate) (hsucceeds : ∀ o ∈ ops, o.Succeeds) (hop : op.Flushes) :
    ∃ s₀ s s', openDB env [] repair = .ok (s₀, none) ∧ run env s₀ ops = .ok s ∧
      step env s op = .ok (s', none) ∧
      (deserializeDB env.flate s'.file).err = none ∧
      (deserializeDB env.flate s'.file).version =
        (Denoted.empty.run env.flate (ops ++ [op])).version ∧
      (∀ key, (deserializeDB env.flate s'.file).records.lookup key =
        (Denoted.empty.run env.flate (ops ++ [op])).map key) ∧
      9 * (deserializeDB env.flate s'.file).uncompacted ≤
        10 * (deserializeDB env.flate s'.file).records.entries.length + 71 := by
  obtain ⟨s₀, hopen, hrefines₀, hcounted₀⟩ := openDB_new env repair
  obtain ⟨recs, s, hrun, hrefines, hcounted⟩ := run_refines hround hrefines₀ hfits
    (runWritesWhole_of_succeeds hsucceeds env.flate .empty)
  obtain ⟨recs', s', err, hstep, hrefines', hstep'⟩ := step_refines hround hrefines
    (hop.fits env.flate) (hop.succeeds.writesWhole env.flate _)
  obtain ⟨rfl, hcounted'⟩ := hstep' hop.succeeds
  have hlog := hop.log_step env.flate (Denoted.empty.run env.flate ops)
  have hcount := hcounted' (hcounted hsucceeds hcounted₀)
  have hbound := hcount.bound hlog
  have hdenoted : Denoted.empty.run env.flate (ops ++ [op]) =
      (Denoted.empty.run env.flate ops).step env.flate op := foldl_append
  have hmap : ∀ key, (replay ∅ recs').lookup key =
      ((Denoted.empty.run env.flate ops).step env.flate op).map key := by
    intro key
    rw [hrefines'.map_eq_replay, length_eq_zero_iff.mp hlog, append_nil]
  rw [hrefines'.length_records hmap] at hbound
  refine ⟨s₀, s, s', hopen, hrun, hstep, ?_⟩
  rw [hrefines'.deserialize hround, hdenoted]
  exact ⟨rfl, rfl, hmap, hbound⟩

/-- A record is deleted after its data was discarded, and another is saved. -/
theorem flush_denotes_markedEnv :
    ∃ s₀ s s', openDB markedEnv [] false = .ok (s₀, none) ∧
      run markedEnv s₀ [.save [7] [1] 3, .discardData, .delete [7], .save [8] [2, 2] 4] = .ok s ∧
      step markedEnv s .flush = .ok (s', none) ∧
      (deserializeDB markedFlate s'.file).err = none ∧
      (deserializeDB markedFlate s'.file).records.lookup [8] = some ⟨[2, 2], 4⟩ := by
  have hfits : ∀ o ∈ [Op.save [7] [1] 3, .discardData, .delete [7], .save [8] [2, 2] 4],
      o.Fits markedEnv.flate := by
    intro o ho
    simp only [mem_cons, not_mem_nil, or_false] at ho
    rcases ho with rfl | rfl | rfl | rfl
    · exact ⟨⟨by decide, by decide, by decide⟩, by decide⟩
    · trivial
    · trivial
    · exact ⟨⟨by decide, by decide, by decide⟩, by decide⟩
  have hsucceeds : ∀ o ∈ [Op.save [7] [1] 3, .discardData, .delete [7], .save [8] [2, 2] 4],
      o.Succeeds := by
    intro o ho
    simp only [mem_cons, not_mem_nil, or_false] at ho
    rcases ho with rfl | rfl | rfl | rfl <;> trivial
  obtain ⟨s₀, s, s', hopen, hrun, hstep, herr, -, hmap, -⟩ :=
    flush_denotes markedFlate_roundTrips false .flush hfits hsucceeds trivial
  exact ⟨s₀, s, s', hopen, hrun, hstep, herr, (hmap [8]).trans rfl⟩

/-- Once the values were discarded, a value saved under the same key and sequence number is not
written: the last write does not win. -/
theorem discardData_keeps_old :
    (do
      let (s, _) ← openDB markedEnv [] false
      let s ← run markedEnv s [.save [7] [1] 3, .discardData, .save [7] [2] 3, .flush]
      return (deserializeDB markedFlate s.file).records.lookup [7]) =
      (.ok (some ⟨[1], 3⟩) : Except Stop (Option Record)) := by
  decide

/-! ### With failures -/

/-- Failed flushes that wrote whole records lose nothing: once a `Flush` succeeds, a database
opened from the file has the map that the operations denote. -/
theorem flush_recovers (hround : env.flate.RoundTrips) (repair repair' : Bool) {ops : List Op}
    (hfits : ∀ o ∈ ops, o.Fits env.flate) (hwhole : RunWritesWhole env.flate .empty ops) :
    ∃ s₀ s s' s'', openDB env [] repair = .ok (s₀, none) ∧ run env s₀ ops = .ok s ∧
      step env s .flush = .ok (s', none) ∧ openDB env s'.file repair' = .ok (s'', none) ∧
      ∀ key, s''.db.records.lookup key = (Denoted.empty.run env.flate ops).map key := by
  obtain ⟨s₀, hopen, hrefines₀, -⟩ := openDB_new env repair
  obtain ⟨recs, s, hrun, hrefines, -⟩ := run_refines hround hrefines₀ hfits hwhole
  obtain ⟨recs', s', hflush, hrefines', -⟩ := hrefines.flush hround
  obtain ⟨recs'', s'', hreopen, hrefines'', -⟩ := hrefines'.openDB hround repair'
  refine ⟨s₀, s, s', s'', hopen, hrun, hflush, hreopen, ?_⟩
  intro key
  rw [hrefines''.records]
  exact Option.map_id'

/-- The first `Flush` fails behind the first of two records. -/
theorem flush_recovers_markedEnv :
    ∃ s₀ s s' s'', openDB markedEnv [] false = .ok (s₀, none) ∧
      run markedEnv s₀ [.save [7] [1] 3, .save [8] [] 4, .failedFlush 24] = .ok s ∧
      step markedEnv s .flush = .ok (s', none) ∧
      openDB markedEnv s'.file false = .ok (s'', none) ∧
      s''.db.records.lookup [7] = some ⟨[1], 3⟩ := by
  have hfits : ∀ o ∈ [Op.save [7] [1] 3, .save [8] [] 4, .failedFlush 24],
      o.Fits markedEnv.flate := by
    intro o ho
    simp only [mem_cons, not_mem_nil, or_false] at ho
    rcases ho with rfl | rfl | rfl
    · exact ⟨⟨by decide, by decide, by decide⟩, by decide⟩
    · exact ⟨⟨by decide, by decide, by decide⟩, by decide⟩
    · trivial
  have hwhole : RunWritesWhole markedEnv.flate .empty
      [.save [7] [1] 3, .save [8] [] 4, .failedFlush 24] := by
    refine ⟨trivial, trivial, ?_, trivial⟩
    show 24 ∈ _
    decide
  obtain ⟨s₀, s, s', s'', hopen, hrun, hflush, hreopen, hmap⟩ :=
    flush_recovers markedFlate_roundTrips false false hfits hwhole
  exact ⟨s₀, s, s', s'', hopen, hrun, hflush, hreopen, (hmap [7]).trans rfl⟩

/-- The first `Flush` fails after one byte, the second succeeds, and the record is gone. -/
theorem flush_loses_record :
    (do
      let (s, _) ← openDB markedEnv [] false
      let s ← run markedEnv s [.save [7] [1] 3, .failedFlush 1]
      let (s, err) ← step markedEnv s .flush
      let (s, _) ← openDB markedEnv s.file true
      return (err, s.db.records.lookup [7])) =
      (.ok (none, none) : Except Stop (Option DbError × Option Record)) := by
  decide

end KConfuzz.Db
