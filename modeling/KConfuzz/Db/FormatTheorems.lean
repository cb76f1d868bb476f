import KConfuzz.Db.Format

/-!
# Reading a database file back

A file made of a header and records is read back record by record (`deserializeDB_dbFile`). On a
file that was cut off somewhere, the loop finds the complete records before the cut, but the error
it ends with depends on where in a record the cut is: between two fields the next read sees the
plain end of the file.
-/

namespace KConfuzz.Db

open Lib.LittleEndian Lib.Parser List

/-! ## The files the package writes -/

section Files

variable (fl : Flate)

/-- A record whose lengths fit their 32-bit fields; a deletion has no value. -/
structure Fits (rec : Key × Record) : Prop where
  key_lt : rec.1.length < 2 ^ 32
  val_lt : rec.2.val.length ≠ 0 → (fl.deflate rec.2.val).length < 2 ^ 32
  val_of_deleted : rec.2.seq = seqDeleted → rec.2.val = []

/-- The map a sequence of records denotes. -/
def replay (records : Records) (recs : List (Key × Record)) : Records :=
  recs.foldl applyRecord records

end Files

@[simp] lemma length_serializeHeader (version : UInt64) :
    (serializeHeader version).length = 16 := by
  simp [serializeHeader]

lemma length_recordBytes_pos (fl : Flate) (rec : Key × Record) :
    16 ≤ (recordBytes fl rec).length := by
  simp only [recordBytes, serializeRecord, length_append, length_toLE]
  omega

variable {fl : Flate}

/-! ## Round trip -/

lemma parses_readBytes (bytes : List UInt8) : Parses (readBytes bytes.length) () bytes bytes () :=
  parses_readFull _ _ bytes ()

variable {n : ℕ}

lemma parses_readUint {v : ℕ} (hv : v < 256 ^ n) : Parses (readUint n) () (toLE n v) v () := by
  have hbytes := parses_readBytes (toLE n v)
  rw [length_toLE] at hbytes
  have hof : ofLE (toLE n v) = v := by
    rw [ofLE_toLE, Nat.mod_eq_of_lt hv]
  apply hbytes.bind_nil
  rw [hof]
  exact parses_pure v ()

lemma parses_readUint64 (v : UInt64) : Parses (readUint 8) () (toLE 8 v.toNat) v.toNat () :=
  parses_readUint v.toNat_lt

/-- The header is read back. -/
lemma deserializeHeader_serializeHeader_append (version : UInt64) (rest : List UInt8) :
    deserializeHeader () (serializeHeader version ++ rest) = .ok ((version, ()), rest) := by
  have hmagic : readUint 4 () (serializeHeader version ++ rest) =
      .ok ((dbMagic, ()), (toLE 4 curVersion ++ toLE 8 version.toNat) ++ rest) := by
    exact parses_readUint (by decide) _
  have hversion : Parses (deserializeVersion dbMagic) ()
      (toLE 4 curVersion ++ toLE 8 version.toNat) version () := by
    have hver : Parses (readUint 4) () (toLE 4 curVersion) curVersion () :=
      parses_readUint (by decide)
    have huser : Parses (readUint 8 >>= fun v => pure (UInt64.ofNat v) : Reader UInt64) ()
        (toLE 8 version.toNat) version () := by
      apply (parses_readUint64 version).bind_nil
      rw [UInt64.ofNat_toNat]
      exact parses_pure version ()
    exact hver.bind huser
  rw [deserializeHeader, hmagic]
  exact hversion rest

variable {rec : Key × Record}

section

variable (hround : fl.RoundTrips)

include hround

lemma length_deflate_ne_zero (val : List UInt8) : (fl.deflate val).length ≠ 0 := by
  intro hzero
  exact hround.deflate_ne_nil _ (length_eq_zero_iff.mp hzero)

/-- The value of a record is read back. -/
lemma parses_deserializeVal (hfits : Fits fl rec) :
    Parses (deserializeVal fl rec.2.seq) ()
      (if rec.2.seq = seqDeleted then [] else serializeVal fl rec.2.val) rec.2.val () := by
  unfold deserializeVal
  split
  · rename_i hdeleted
    rw [hfits.val_of_deleted hdeleted]
    exact parses_pure [] ()
  · by_cases hval : rec.2.val.length = 0
    · have hnil : rec.2.val = [] := length_eq_zero_iff.mp hval
      rw [serializeVal, if_pos hval]
      rw [hnil]
      exact parses_pure [] ()
    · rw [serializeVal, if_neg hval]
      apply (parses_readUint (hfits.val_lt hval)).bind
      rw [if_neg (length_deflate_ne_zero hround _)]
      intro rest
      simp only [inflateVal, take_left, hround.inflate_deflate, drop_left]

lemma parses_deserializeRecord (hfits : Fits fl rec) :
    Parses (deserializeRecord fl) () (recordBytes fl rec) rec () := by
  have hmagic : Parses (readUint 4) () (toLE 4 recMagic) recMagic () := parses_readUint (by decide)
  have hval := parses_deserializeVal hround hfits
  apply hmagic.bind
  apply (parses_readUint hfits.key_lt).bind
  apply (parses_readBytes rec.1).bind
  apply (parses_readUint64 rec.2.seq).bind
  rw [UInt64.ofNat_toNat]
  exact hval.bind_nil (parses_pure rec ())

variable {recs : List (Key × Record)}

variable (hfits : ∀ rec ∈ recs, Fits fl rec)

include hfits

/-- The loop gets through the records in front of the rest of the file. -/
lemma deserializeRecords_append (fuel : ℕ) (l : Loaded) (rest : List UInt8) :
    deserializeRecords fl (recs.length + fuel) l (recs.flatMap (recordBytes fl) ++ rest) =
      deserializeRecords fl fuel { l with
        records := replay l.records recs
        uncompacted := l.uncompacted + recs.length } rest := by
  induction recs generalizing l with
  | nil => rw [length_nil, Nat.zero_add]; rfl
  | cons rec recs ih =>
    have hfirst := parses_deserializeRecord hround (hfits rec mem_cons_self)
      (recs.flatMap (recordBytes fl) ++ rest)
    have hrest := ih (fun r hr => hfits r (mem_cons_of_mem rec hr))
    rw [flatMap_cons, append_assoc, length_cons, Nat.add_right_comm]
    rw [deserializeRecords, hfirst]
    simp only [hrest, replay, foldl_cons, Nat.add_assoc, Nat.add_comm 1]

lemma deserializeDB_dbFile_append (version : UInt64) (rest : List UInt8) :
    ∃ fuel, deserializeDB fl (dbFile fl version recs ++ rest) =
      deserializeRecords fl (fuel + 1) ⟨version, replay ∅ recs, recs.length, none⟩ rest := by
  have hlen := length_le_length_flatMap
    (fun rec => Nat.lt_of_lt_of_le (by decide) (length_recordBytes_pos fl rec)) recs
  let data := recs.flatMap (recordBytes fl) ++ rest
  refine ⟨data.length - recs.length, ?_⟩
  have hfuel : data.length + 1 = recs.length + (data.length - recs.length + 1) := by
    rw [length_append]
    omega
  rw [deserializeDB, dbFile, append_assoc, deserializeHeader_serializeHeader_append]
  show deserializeRecords fl (_ + 1) _ _ = _
  rw [hfuel, deserializeRecords_append hround hfits, Nat.zero_add]

lemma deserializeDB_dbFile (version : UInt64) :
    deserializeDB fl (dbFile fl version recs) = ⟨version, replay ∅ recs, recs.length, none⟩ := by
  obtain ⟨fuel, h⟩ := deserializeDB_dbFile_append hround hfits version []
  rw [append_nil] at h
  rw [h, deserializeRecords]
  rfl

end

/-! ## Where a file can be cut -/

section Cuts

variable (fl : Flate)

/-- The records that end within the first `n` bytes. -/
def complete : List (Key × Record) → ℕ → List (Key × Record)
  | [], _ => []
  | rec :: recs, n =>
    if (recordBytes fl rec).length ≤ n then
      rec :: complete recs (n - (recordBytes fl rec).length)
    else []

/-- The offsets at which a record starts or ends, when the first one starts at `start`. -/
def recordEnds (start : ℕ) : List (Key × Record) → List ℕ
  | [] => [start]
  | rec :: recs => start :: recordEnds (start + (recordBytes fl rec).length) recs

/-- The offsets inside a record at which one field ends and the next one starts: behind the magic
number, the length of the key and the key, and behind the sequence number if a value follows. -/
def fieldEnds (rec : Key × Record) : List ℕ :=
  [4, 8, 8 + rec.1.length] ++ if rec.2.seq = seqDeleted then [] else [16 + rec.1.length]

def innerFieldEnds (start : ℕ) : List (Key × Record) → List ℕ
  | [] => []
  | rec :: recs =>
    (fieldEnds rec).map (start + ·) ++
      innerFieldEnds (start + (recordBytes fl rec).length) recs

end Cuts

lemma length_serializeVal (fl : Flate) (val : List UInt8) : 4 ≤ (serializeVal fl val).length := by
  unfold serializeVal
  split
  · rw [length_toLE]
  · rw [length_append, length_toLE]
    omega

variable {j : ℕ}

lemma fieldEnds_lt (fl : Flate) (hj : j ∈ fieldEnds rec) :
    0 < j ∧ j < (recordBytes fl rec).length := by
  have hval := length_serializeVal fl rec.2.val
  simp only [recordBytes, serializeRecord, length_append, length_toLE]
  unfold fieldEnds at hj
  split at hj
  · simp only [append_nil, mem_cons, not_mem_nil, or_false] at hj
    rw [if_pos (by assumption)]
    omega
  · simp only [cons_append, nil_append, mem_cons, not_mem_nil, or_false] at hj
    rw [if_neg (by assumption)]
    omega

variable {start : ℕ}

lemma recordEnds_bounds (hn : n ∈ recordEnds fl start recs) :
    start ≤ n ∧ n ≤ start + (recs.flatMap (recordBytes fl)).length := by
  induction recs generalizing start with
  | nil =>
    rw [mem_singleton.mp hn]
    exact ⟨Nat.le_refl _, Nat.le_add_right _ _⟩
  | cons rec recs ih =>
    rw [flatMap_cons, length_append]
    rcases mem_cons.mp hn with rfl | htail
    · omega
    · have := ih htail
      omega

lemma lt_of_mem_innerFieldEnds (hn : n ∈ innerFieldEnds fl start recs) : start < n := by
  induction recs generalizing start with
  | nil => cases hn
  | cons rec recs ih =>
    rcases mem_append.mp hn with hfirst | htail
    · obtain ⟨j, hj, rfl⟩ := mem_map.mp hfirst
      have := (fieldEnds_lt fl hj).1
      omega
    · have := ih htail
      omega

lemma mem_innerFieldEnds_of_lt (hj : j < (recordBytes fl rec).length) :
    start + j ∈ innerFieldEnds fl start (rec :: recs) ↔ j ∈ fieldEnds rec := by
  simp only [innerFieldEnds, mem_append, mem_map, Nat.add_left_cancel_iff, exists_eq_right]
  constructor
  · intro h
    rcases h with hfirst | htail
    · exact hfirst
    · have := lt_of_mem_innerFieldEnds htail
      omega
  · exact Or.inl

lemma mem_innerFieldEnds_of_le (recs : List (Key × Record))
    (hn : start + (recordBytes fl rec).length ≤ n) :
    n ∈ innerFieldEnds fl start (rec :: recs) ↔
      n ∈ innerFieldEnds fl (start + (recordBytes fl rec).length) recs := by
  simp only [innerFieldEnds, mem_append, mem_map]
  constructor
  · intro h
    rcases h with ⟨j, hj, rfl⟩ | htail
    · have := (fieldEnds_lt fl hj).2
      omega
    · exact htail
  · exact Or.inr

/-- The bytes before a cut are the complete records and then nothing or a strict part of the next
record. -/
inductive CutAt (fl : Flate) (start : ℕ) (recs : List (Key × Record)) (n : ℕ) : Prop
  | recordEnd (hend : n ∈ recordEnds fl start recs)
      (hfield : n ∉ innerFieldEnds fl start recs)
      (htake : (recs.flatMap (recordBytes fl)).take (n - start) =
        (complete fl recs (n - start)).flatMap (recordBytes fl))
  | inside (rec : Key × Record) (j : ℕ) (hrec : rec ∈ recs) (hpos : 0 < j)
      (hlt : j < (recordBytes fl rec).length) (hend : n ∉ recordEnds fl start recs)
      (hfield : n ∈ innerFieldEnds fl start recs ↔ j ∈ fieldEnds rec)
      (htake : (recs.flatMap (recordBytes fl)).take (n - start) =
        (complete fl recs (n - start)).flatMap (recordBytes fl) ++ (recordBytes fl rec).take j)

lemma cutAt_nil (start : ℕ) : CutAt fl start [] start :=
  .recordEnd (mem_singleton.mpr rfl) not_mem_nil (by simp [complete])

/-- A file can end inside its first record. -/
lemma cutAt_cons_of_lt (hj : j < (recordBytes fl rec).length) :
    CutAt fl start (rec :: recs) (start + j) := by
  have hcomplete : complete fl (rec :: recs) j = [] := by
    rw [complete, if_neg (by omega)]
  have hbytes : ((rec :: recs).flatMap (recordBytes fl)).take j = (recordBytes fl rec).take j := by
    rw [flatMap_cons, take_append_of_le_length (by omega)]
  by_cases hzero : j = 0
  · subst hzero
    apply CutAt.recordEnd
    · exact mem_cons_self
    · intro hmem
      have := lt_of_mem_innerFieldEnds hmem
      omega
    · rw [Nat.add_sub_cancel_left, hcomplete]
      rfl
  · apply CutAt.inside rec j mem_cons_self (by omega) hj
    · intro hmem
      rcases mem_cons.mp hmem with heq | htail
      · omega
      · have := recordEnds_bounds htail
        omega
    · exact mem_innerFieldEnds_of_lt hj
    · rw [Nat.add_sub_cancel_left, hcomplete, hbytes]
      rfl

/-- A file can end behind its first record. -/
lemma CutAt.cons {rec : Key × Record} {recs : List (Key × Record)} {start n : ℕ}
    (hn : start + (recordBytes fl rec).length ≤ n)
    (h : CutAt fl (start + (recordBytes fl rec).length) recs n) :
    CutAt fl start (rec :: recs) n := by
  have hpos := length_recordBytes_pos fl rec
  set next := start + (recordBytes fl rec).length with hnext
  have hsub : n - start = (recordBytes fl rec).length + (n - next) := by omega
  have hcomplete : complete fl (rec :: recs) (n - start) = rec :: complete fl recs (n - next) := by
    rw [complete, if_pos (by omega), Nat.sub_sub]
  have hbytes : ((rec :: recs).flatMap (recordBytes fl)).take (n - start) =
      recordBytes fl rec ++ (recs.flatMap (recordBytes fl)).take (n - next) := by
    rw [flatMap_cons, hsub, take_length_add_append]
  have hends : n ∈ recordEnds fl start (rec :: recs) ↔ n ∈ recordEnds fl next recs := by
    rw [recordEnds, mem_cons]
    exact or_iff_right (by omega)
  have hfields := mem_innerFieldEnds_of_le recs hn
  cases h with
  | recordEnd hend hfield htake =>
    apply CutAt.recordEnd (hends.mpr hend) (fun hmem => hfield (hfields.mp hmem))
    rw [hbytes, hcomplete, htake, flatMap_cons]
  | inside rec' j hrec hj hlt hend hfield htake =>
    apply CutAt.inside rec' j (mem_cons_of_mem rec hrec) hj hlt
      (fun hmem => hend (hends.mp hmem)) (hfields.trans hfield)
    rw [hbytes, hcomplete, htake, flatMap_cons, append_assoc]

/-- Every length within the records is a cut of the file. -/
lemma cutAt_of_le (start : ℕ) (hstart : start ≤ n)
    (hn : n ≤ start + (recs.flatMap (recordBytes fl)).length) : CutAt fl start recs n := by
  induction recs generalizing start with
  | nil =>
    have heq : n = start := by
      simp only [flatMap_nil, length_nil] at hn
      omega
    rw [heq]
    exact cutAt_nil start
  | cons rec recs ih =>
    rw [flatMap_cons, length_append] at hn
    by_cases hfirst : n - start < (recordBytes fl rec).length
    · have heq : start + (n - start) = n := by omega
      rw [← heq]
      exact cutAt_cons_of_lt hfirst
    · exact (ih _ (by omega) (by omega)).cons (by omega)

lemma take_of_mem_recordEnds (hn : n ∈ recordEnds fl 0 recs) :
    (recs.flatMap (recordBytes fl)).take n = (complete fl recs n).flatMap (recordBytes fl) := by
  cases cutAt_of_le 0 (Nat.zero_le n) (recordEnds_bounds hn).2 with
  | recordEnd _ _ htake => exact htake
  | inside _ _ _ _ _ hend => exact absurd hn hend

/-! ## Reading a record that was cut -/

/-- The reads of the database fail with `io.EOF` at the offsets in `ends`. -/
abbrev Cut {α : Type} (m : Reader α) (bytes : List UInt8) (ends : List ℕ) : Prop :=
  Truncates .eof .unexpectedEOF m () bytes ends

lemma cut_readBytes (bytes : List UInt8) :
    Cut (readBytes bytes.length) bytes (if bytes.length = 0 then [] else [0]) := by
  apply (truncates_readFull bytes ()).mono
  intro n hn
  rw [if_neg (by omega)]

lemma cut_readUint (n v : ℕ) : Cut (readUint n) (toLE n v) [0] := by
  have hbytes : Cut (readFull .eof .unexpectedEOF (toLE n v).length) (toLE n v) [0] :=
    truncates_readFull (toLE n v) ()
  rw [length_toLE] at hbytes
  exact hbytes.bind_nil

lemma Cut.readUint_bind {α : Type} {f : ℕ → Reader α} {v : ℕ} {bytes : List UInt8} {ends : List ℕ}
    (hn : 0 < n) (hv : v < 256 ^ n) (hf : Cut (f v) bytes ends) :
    Cut (readUint n >>= f) (toLE n v ++ bytes) (0 :: ends.map (n + ·)) := by
  have hfirst := cut_readUint n v
  have hends : ∀ k ∈ [0], k < (toLE n v).length := by
    intro k hk
    rw [mem_singleton.mp hk, length_toLE]
    exact hn
  have h := hfirst.bind hends (parses_readUint hv) hf
  rw [length_toLE] at h
  exact h

lemma cut_inflateVal (htrunc : fl.ReportsTruncation) (val : List UInt8) :
    Cut (inflateVal fl (fl.deflate val).length) (fl.deflate val) [] := by
  intro n hn
  have hshort : ((fl.deflate val).take n).take (fl.deflate val).length =
      (fl.deflate val).take n := by
    rw [take_take, Nat.min_eq_right (by omega)]
  simp only [inflateVal, hshort, htrunc val n hn, not_mem_nil, if_false]

/-- A value that is cut off is not read. -/
lemma cut_deserializeVal (hround : fl.RoundTrips) (htrunc : fl.ReportsTruncation)
    (hfits : Fits fl rec) :
    Cut (deserializeVal fl rec.2.seq)
      (if rec.2.seq = seqDeleted then [] else serializeVal fl rec.2.val)
      (if rec.2.seq = seqDeleted then [] else [0]) := by
  unfold deserializeVal
  split
  · intro n hn
    cases hn
  · unfold serializeVal
    split
    · exact (cut_readUint 4 0).bind_nil
    · rename_i hval
      show Cut _ _ (0 :: [].map (4 + ·))
      apply Cut.readUint_bind (n := 4) (by omega) (hfits.val_lt hval)
      rw [if_neg (length_deflate_ne_zero hround _)]
      exact cut_inflateVal htrunc rec.2.val

/-- A record that was cut gives `io.EOF` at the borders of its fields. -/
lemma cut_deserializeRecord (hround : fl.RoundTrips) (htrunc : fl.ReportsTruncation)
    (hfits : Fits fl rec) :
    Cut (deserializeRecord fl) (recordBytes fl rec) (0 :: fieldEnds rec) := by
  have hval := cut_deserializeVal hround htrunc hfits
  have hseq : Cut (readUint 8 >>= fun seq => deserializeVal fl (UInt64.ofNat seq) >>= fun val =>
      pure (rec.1, (⟨val, UInt64.ofNat seq⟩ : Record)))
      (toLE 8 rec.2.seq.toNat ++
        if rec.2.seq = seqDeleted then [] else serializeVal fl rec.2.val)
      (0 :: (if rec.2.seq = seqDeleted then [] else [0]).map (8 + ·)) := by
    apply Cut.readUint_bind (by omega) rec.2.seq.toNat_lt
    rw [UInt64.ofNat_toNat]
    exact hval.bind_nil
  have hends : ∀ n ∈ (if rec.1.length = 0 then [] else [0]), n < rec.1.length := by
    intro n hn
    split at hn
    · cases hn
    · rw [mem_singleton.mp hn]
      omega
  -- the borders as the reads give them, one inside the other
  have hall : Cut (deserializeRecord fl) (recordBytes fl rec) (0 :: (0 ::
      ((if rec.1.length = 0 then [] else [0]) ++
        (0 :: (if rec.2.seq = seqDeleted then [] else [0]).map (8 + ·)).map
          (rec.1.length + ·)).map (4 + ·)).map (4 + ·)) := by
    apply Cut.readUint_bind (n := 4) (v := recMagic) (by omega) (by decide)
    apply Cut.readUint_bind (n := 4) (by omega) hfits.key_lt
    exact (cut_readBytes rec.1).bind hends (parses_readBytes rec.1) hseq
  apply hall.mono
  unfold fieldEnds
  by_cases hkey : rec.1.length = 0
  · by_cases hseq : rec.2.seq = seqDeleted
    · simp [hkey, hseq]
    · simp [hkey, hseq]
  · by_cases hseq : rec.2.seq = seqDeleted
    · simp [hkey, hseq]
      omega
    · simp [hkey, hseq]
      omega

/-! ## Reading a file that was cut -/

/-- A cut inside the header is always reported. -/
lemma deserializeHeader_take (version : UInt64) (hpos : 0 < n) (hn : n < 16) :
    ∃ err, deserializeHeader () ((serializeHeader version).take n) = .error err := by
  let rest := toLE 4 curVersion ++ toLE 8 version.toNat
  have hver : Cut (deserializeVersion dbMagic) rest (0 :: [0].map (4 + ·)) := by
    apply Cut.readUint_bind (n := 4) (v := curVersion) (by omega) (by decide)
    exact (cut_readUint 8 version.toNat).bind_nil
  by_cases hmagic : n < 4
  · have htake : (serializeHeader version).take n = (toLE 4 dbMagic).take n := by
      rw [serializeHeader, take_append_of_le_length (by rw [length_toLE]; omega)]
    have hread := cut_readUint 4 dbMagic n (by rw [length_toLE]; exact hmagic)
    rw [if_neg (by rw [mem_singleton]; omega)] at hread
    exact ⟨.unexpectedEOF, by rw [deserializeHeader, htake, hread]⟩
  · have htake : (serializeHeader version).take n = toLE 4 dbMagic ++ rest.take (n - 4) := by
      rw [serializeHeader, take_append, take_of_length_le (by rw [length_toLE]; omega),
        length_toLE]
    have hread : readUint 4 () ((serializeHeader version).take n) =
        .ok ((dbMagic, ()), rest.take (n - 4)) := by
      rw [htake]
      exact parses_readUint (by decide) _
    have herr := hver (n - 4) (by simp only [rest, length_append, length_toLE]; omega)
    rw [deserializeHeader, hread]
    exact ⟨_, herr⟩

/-- What `deserializeDB` does with a file that ends inside a record: the records in front of it,
and no error if the part of it that is there ends with a field. -/
lemma deserializeDB_inside (hround : fl.RoundTrips) (htrunc : fl.ReportsTruncation)
    (hfits : ∀ rec ∈ recs, Fits fl rec) (hrec : Fits fl rec) (version : UInt64) (hpos : 0 < j)
    (hj : j < (recordBytes fl rec).length) :
    deserializeDB fl (dbFile fl version recs ++ (recordBytes fl rec).take j) =
      ⟨version, replay ∅ recs, recs.length,
        if j ∈ fieldEnds rec then none else some (.record .unexpectedEOF)⟩ := by
  obtain ⟨fuel, hread⟩ :=
    deserializeDB_dbFile_append hround hfits version ((recordBytes fl rec).take j)
  have hcut := cut_deserializeRecord hround htrunc hrec j hj
  have hmem : j ∈ 0 :: fieldEnds rec ↔ j ∈ fieldEnds rec := by
    rw [mem_cons]
    exact or_iff_right (by omega)
  simp only [hmem] at hcut
  rw [hread, deserializeRecords, hcut]
  by_cases hfield : j ∈ fieldEnds rec
  · simp only [if_pos hfield]
  · simp only [if_neg hfield]

lemma mem_of_mem_complete (hrec : rec ∈ complete fl recs n) : rec ∈ recs := by
  induction recs generalizing n with
  | nil => cases hrec
  | cons first recs ih =>
    unfold complete at hrec
    split at hrec
    · rcases mem_cons.mp hrec with rfl | htail
      · exact mem_cons_self
      · exact mem_cons_of_mem first (ih htail)
    · cases hrec

lemma complete_zero (fl : Flate) (recs : List (Key × Record)) : complete fl recs 0 = [] := by
  cases recs with
  | nil => rfl
  | cons rec recs =>
    have hpos := length_recordBytes_pos fl rec
    rw [complete, if_neg (by omega)]

lemma take_dbFile (version : UInt64) (hn : 16 ≤ n) {part : List UInt8}
    {before : List (Key × Record)} (h : (recs.flatMap (recordBytes fl)).take (n - 16) =
      before.flatMap (recordBytes fl) ++ part) :
    (dbFile fl version recs).take n = dbFile fl version before ++ part := by
  rw [dbFile, take_append, length_serializeHeader, h,
    take_of_length_le (by rw [length_serializeHeader]; exact hn), dbFile, append_assoc]

/-! ### A compressor -/

/-- The bytes of a stream that marks every byte of the value with a one and ends with a zero. -/
def markedInflate : List UInt8 → Except ReadError (List UInt8 × ℕ)
  | 0 :: _ => .ok ([], 1)
  | _ :: b :: rest => do
    let (val, used) ← markedInflate rest
    return (b :: val, used + 2)
  | _ => .error .unexpectedEOF

def markedFlate : Flate where
  deflate val := val.flatMap (fun b => [1, b]) ++ [0]
  inflate := markedInflate

lemma markedFlate_deflate_cons (b : UInt8) (val : List UInt8) :
    markedFlate.deflate (b :: val) = 1 :: b :: markedFlate.deflate val := rfl

lemma markedFlate_roundTrips : markedFlate.RoundTrips where
  deflate_ne_nil val := by
    simp [markedFlate]
  inflate_deflate val := by
    show markedInflate _ = _
    induction val with
    | nil => rfl
    | cons b val ih =>
      rw [markedFlate_deflate_cons, markedInflate, ih]
      · rfl
      · decide

/-- The compressor with an end mark notices missing bytes. -/
lemma markedFlate_reportsTruncation : markedFlate.ReportsTruncation := by
  intro val n hn
  show markedInflate _ = _
  induction val generalizing n with
  | nil =>
    have hzero : n = 0 := by
      have hlen : (markedFlate.deflate []).length = 1 := rfl
      omega
    rw [hzero]
    rfl
  | cons b val ih =>
    rw [markedFlate_deflate_cons] at hn ⊢
    match n with
    | 0 => rfl
    | 1 => rfl
    | n + 2 =>
      have hrest : n < (markedFlate.deflate val).length := by
        simp only [length_cons] at hn
        omega
      rw [take_succ_cons, take_succ_cons, markedInflate, ih n hrest]
      · rfl
      · decide

/-- A file that was cut off after `n` bytes gives the complete records before the cut, and an
error unless the cut is at a record's end or, inside a record, at the end of a field: exactly
there the loss of the record is silent. -/
theorem deserializeDB_cut_iff (hround : fl.RoundTrips) (htrunc : fl.ReportsTruncation)
    {recs : List (Key × Record)} (hfits : ∀ rec ∈ recs, Fits fl rec) (version : UInt64) {n : ℕ}
    (hn : n ≤ (dbFile fl version recs).length) :
    ((deserializeDB fl ((dbFile fl version recs).take n)).records =
        replay ∅ (complete fl recs (n - 16)) ∧
      (n ≠ 0 → n ∉ recordEnds fl 16 recs →
        (deserializeDB fl ((dbFile fl version recs).take n)).err ≠ none)) ↔
      n ∉ innerFieldEnds fl 16 recs := by
  by_cases hheader : n < 16
  · -- the cut is in the header: no field of a record ends there
    have hfield : n ∉ innerFieldEnds fl 16 recs := by
      intro hmem
      have := lt_of_mem_innerFieldEnds hmem
      omega
    have htake : (dbFile fl version recs).take n = (serializeHeader version).take n := by
      rw [dbFile, take_append_of_le_length (by rw [length_serializeHeader]; omega)]
    have hsub : n - 16 = 0 := by omega
    refine iff_of_true ?_ hfield
    rw [htake, hsub, complete_zero]
    by_cases hzero : n = 0
    · subst hzero
      exact ⟨rfl, fun h => absurd rfl h⟩
    · obtain ⟨err, herr⟩ := deserializeHeader_take version (by omega) hheader
      rw [deserializeDB, herr]
      exact ⟨rfl, fun _ _ => Option.some_ne_none _⟩
  · have hlen : n ≤ 16 + (recs.flatMap (recordBytes fl)).length := by
      rw [dbFile, length_append, length_serializeHeader] at hn
      exact hn
    have hcomplete : ∀ rec ∈ complete fl recs (n - 16), Fits fl rec :=
      fun rec hrec => hfits rec (mem_of_mem_complete hrec)
    cases cutAt_of_le 16 (by omega) hlen with
    | recordEnd hend hfield htake =>
      have hfile : (dbFile fl version recs).take n =
          dbFile fl version (complete fl recs (n - 16)) := by
        have h := take_dbFile version (by omega) (htake.trans (append_nil _).symm)
        rwa [append_nil] at h
      rw [hfile, deserializeDB_dbFile hround hcomplete]
      exact iff_of_true ⟨rfl, fun _ h => absurd hend h⟩ hfield
    | inside rec j hrec hpos hj hend hfield htake =>
      rw [take_dbFile version (by omega) htake,
        deserializeDB_inside hround htrunc hcomplete (hfits rec hrec) version hpos hj, hfield]
      by_cases hmem : j ∈ fieldEnds rec
      · rw [if_pos hmem]
        refine iff_of_false ?_ (fun h => h hmem)
        intro h
        exact h.2 (by omega) hend rfl
      · rw [if_neg hmem]
        exact iff_of_true ⟨rfl, fun _ _ => Option.some_ne_none _⟩ hmem

/-- One byte into the record, the cut is reported. -/
theorem deserializeDB_cut_iff_marked :
    17 ∉ innerFieldEnds markedFlate 16 [([7], ⟨[1], 3⟩)] ∧
    (deserializeDB markedFlate ((dbFile markedFlate 5 [([7], ⟨[1], 3⟩)]).take 17)).records =
      replay ∅ (complete markedFlate [([7], ⟨[1], 3⟩)] (17 - 16)) ∧
    (deserializeDB markedFlate
      ((dbFile markedFlate 5 [([7], ⟨[1], 3⟩)]).take 17)).err ≠ none := by
  have hfits : ∀ rec ∈ [(([7], ⟨[1], 3⟩) : Key × Record)], Fits markedFlate rec := by
    intro rec hrec
    rw [mem_singleton.mp hrec]
    exact ⟨by decide, by decide, by decide⟩
  have hcut : 17 ∉ innerFieldEnds markedFlate 16 [([7], ⟨[1], 3⟩)] := by decide
  have h := (deserializeDB_cut_iff markedFlate_roundTrips markedFlate_reportsTruncation hfits 5
    (by decide)).mpr hcut
  exact ⟨hcut, h.1, h.2 (by decide) (by decide)⟩

/-- Behind the magic number of the only record, the cut is neither at the start nor at a record's
end, and there is no error. -/
theorem deserializeDB_cut_behind_magic :
    20 ≠ 0 ∧ 20 ∉ recordEnds markedFlate 16 [([7], ⟨[1], 3⟩)] ∧
    (deserializeDB markedFlate ((dbFile markedFlate 5 [([7], ⟨[1], 3⟩)]).take 20)).err = none := by
  decide

end KConfuzz.Db
