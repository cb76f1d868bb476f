import KConfuzz.Exec.ChecksumTheorems
import KConfuzz.Executor.CopyinTheorems
import KConfuzz.Executor.CsumInetTheorems

/-!
# Checksums verify after execution

The executor clears a checksum field with its data copyin and fills it in after all data copyins,
fields at higher addresses first. When the bytes of a field are its own, the 16-bit one's
complement sum over what the field covers (`packetBytes`) is `0xffff` in the end: it is when the
field is filled in (`ChunksOf.verifies_store`), since the digest is what is missing to `0xffff`,
and the fields that are filled in later are not covered.
-/

namespace KConfuzz.Executor

open Lib.ByteMemory Lib.ExceptFold Lib.LittleEndian Lib.OnesComplement Lib.StableSort List

/-! ## What a checksum is computed over -/

/-- The memory of an argument. -/
def argBytes (mem : Memory) (addr : ArgId → UInt64) (a : Arg) : List UInt8 :=
  load mem (addr a.id) a.size.toNat

/-- The rest of the pseudo header after the addresses: the protocol and the length in network
byte order, as 16-bit words for addresses of 4 bytes and as 32-bit words otherwise. -/
def pseudoWords (src : Arg) (protocol : UInt8) (length : UInt64) : List UInt8 :=
  if src.size = 4 then toBE 2 protocol.toNat ++ toBE 2 length.toNat
  else toBE 4 length.toNat ++ toBE 4 protocol.toNat

/-- The bytes whose sum the checksum field completes: the covered argument, behind the pseudo
header for a pseudo checksum. -/
def packetBytes (c : Call) (mem : Memory) (addr : ArgId → UInt64) (field : Arg × CsumType) :
    Except String (List UInt8) := do
  let visited := (foreachArg c).map Prod.fst
  let covered ← findCsummedArg field.1.id field.2 (visited.flatMap parentEntries)
  match field.2.kind with
  | .csumInet => return argBytes mem addr covered
  | .csumPseudo =>
    match ← ipAddrs visited with
    | none => throw "no ipv4 nor ipv6 header found"
    | some (src, dst) =>
      return argBytes mem addr src ++ argBytes mem addr dst ++
        pseudoWords src field.2.protocol.toUInt8 covered.size ++ argBytes mem addr covered

/-- The bytes of a chunk before it is written as an instruction. -/
def csumChunkBytes (mem : Memory) (addr : ArgId → UInt64) : CsumChunk → List UInt8
  | .arg a => argBytes mem addr a
  | .const value size => toLE size.toNat value.toNat

/-- The chunks of a field make its packet: chunks of an even number of bytes, and the covered
argument at the end. -/
structure ChunksOf (c : Call) (field : Arg × CsumInfo) (typ : CsumType) (before : List CsumChunk)
    (covered : Arg) : Prop where
  field_mem : (field.1, typ) ∈ ((foreachArg c).map Prod.fst).filterMap (csumField? typ.kind)
  chunks_eq : field.2.chunks = before ++ [.arg covered]
  before_bytes : ∀ mem addr, ∀ chunk ∈ before,
    chunkBytes mem (csumChunk addr chunk) = csumChunkBytes mem addr chunk ∧
      (csumChunkBytes mem addr chunk).length % 2 = 0 ∧
      (csumChunkBytes mem addr chunk).length < 65536
  packet : ∀ mem addr, packetBytes c mem addr (field.1, typ) =
    .ok (before.flatMap (csumChunkBytes mem addr) ++ argBytes mem addr covered)

lemma chunkBytes_const (mem : Memory) (addr : ArgId → UInt64) (value : UInt64) {size : UInt64}
    (h : size.toNat ≤ 8) :
    chunkBytes mem (csumChunk addr (.const value size)) = toLE size.toNat value.toNat := by
  exact take_toLE h value.toNat

lemma chunkBytes_arg (mem : Memory) (addr : ArgId → UInt64) (a : Arg) :
    chunkBytes mem (csumChunk addr (.arg a)) = argBytes mem addr a := by
  rfl

variable {c : Call}

/-- The chunks of an inet checksum. -/
lemma chunksOf_inetEntry {field : Arg × CsumType}
    (hfield : field ∈ ((foreachArg c).map Prod.fst).filterMap (csumField? .csumInet))
    {entry : CsumEntry}
    (h : inetEntry (((foreachArg c).map Prod.fst).flatMap parentEntries) field = .ok entry) :
    ∃ typ before covered, ChunksOf c (entry.arg, entry.info) typ before covered := by
  have hkind := (csumField_of_mem hfield).2.1
  simp only [inetEntry, bind_eq_ok_iff] at h
  obtain ⟨covered, hcovered, h⟩ := h
  cases h
  refine ⟨field.2, [], covered, ?_, rfl, by simp, ?_⟩
  · rw [hkind]
    exact hfield
  · intro mem addr
    simp only [packetBytes, hcovered, hkind]
    rfl

/-- The chunks of a pseudo checksum. -/
lemma chunksOf_pseudoEntry {field : Arg × CsumType}
    (hfield : field ∈ ((foreachArg c).map Prod.fst).filterMap (csumField? .csumPseudo))
    {src dst : Arg} (haddrs : ipAddrs ((foreachArg c).map Prod.fst) = .ok (some (src, dst)))
    {entry : CsumEntry}
    (h : pseudoEntry (((foreachArg c).map Prod.fst).flatMap parentEntries) src dst field =
      .ok entry) :
    ∃ typ before covered, ChunksOf c (entry.arg, entry.info) typ before covered := by
  have hkind := (csumField_of_mem hfield).2.1
  obtain ⟨_, _, _, _, _, hheader⟩ := headerAddrs_of_ipAddrs haddrs
  obtain ⟨size, hsize, hsrc, hdst⟩ := hheader.size
  have hwidth : size.toNat % 2 = 0 ∧ size.toNat < 65536 := by
    simp only [mem_cons, not_mem_nil, or_false] at hsize
    obtain rfl | rfl := hsize
    · decide
    · decide
  simp only [pseudoEntry, bind_eq_ok_iff] at h
  obtain ⟨covered, hcovered, h⟩ := h
  cases h
  have hargs : ∀ mem addr a, a = src ∨ a = dst →
      chunkBytes mem (csumChunk addr (.arg a)) = csumChunkBytes mem addr (.arg a) ∧
        (csumChunkBytes mem addr (.arg a)).length % 2 = 0 ∧
        (csumChunkBytes mem addr (.arg a)).length < 65536 := by
    intro mem addr a ha
    refine ⟨chunkBytes_arg mem addr a, ?_⟩
    rw [csumChunkBytes, argBytes, length_load]
    obtain rfl | rfl := ha
    · rw [hsrc]
      exact hwidth
    · rw [hdst]
      exact hwidth
  have hconst : ∀ mem addr value, ∀ k ∈ [(2 : UInt64), 4],
      chunkBytes mem (csumChunk addr (.const value k)) = csumChunkBytes mem addr (.const value k) ∧
        (csumChunkBytes mem addr (.const value k)).length % 2 = 0 ∧
        (csumChunkBytes mem addr (.const value k)).length < 65536 := by
    intro mem addr value k hk
    simp only [mem_cons, not_mem_nil, or_false] at hk
    rw [csumChunkBytes, length_toLE]
    obtain rfl | rfl := hk
    · exact ⟨chunkBytes_const mem addr value (by decide), by decide, by decide⟩
    · exact ⟨chunkBytes_const mem addr value (by decide), by decide, by decide⟩
  have hpacket : ∀ mem addr, packetBytes c mem addr field = .ok (argBytes mem addr src ++
      argBytes mem addr dst ++ pseudoWords src field.2.protocol.toUInt8 covered.size ++
      argBytes mem addr covered) := by
    intro mem addr
    simp only [packetBytes, hcovered, hkind, haddrs]
    rfl
  have hmem : field ∈ ((foreachArg c).map Prod.fst).filterMap (csumField? field.2.kind) := by
    rw [hkind]
    exact hfield
  -- the two kinds of addresses differ in the width and the order of the words
  have hwords : ∀ k ∈ [(2 : UInt64), 4], ∀ v v' info,
      info.chunks = [.arg src, .arg dst, .const v k, .const v' k, .arg covered] →
      toLE k.toNat v.toNat ++ toLE k.toNat v'.toNat =
        pseudoWords src field.2.protocol.toUInt8 covered.size →
      ∃ typ before covered, ChunksOf c (field.1, info) typ before covered := by
    intro k hk v v' info hinfo hwords
    refine ⟨field.2, [.arg src, .arg dst, .const v k, .const v' k], covered, hmem, hinfo, ?_, ?_⟩
    · intro mem addr
      simp only [forall_mem_cons, not_mem_nil, false_imp_iff, implies_true, and_true]
      exact ⟨hargs mem addr src (.inl rfl), hargs mem addr dst (.inr rfl),
        hconst mem addr v k hk, hconst mem addr v' k hk⟩
    · intro mem addr
      rw [hpacket, ← hwords]
      simp only [flatMap_cons, flatMap_nil, csumChunkBytes, append_nil, append_assoc]
  by_cases hfour : src.size = 4
  · refine hwords 2 (by simp) _ _ _ (by simp only [hfour, if_true]; rfl) ?_
    have hlen : toLE 2 (swap16 covered.size.toUInt16).toNat = toBE 2 covered.size.toNat := by
      rw [toLE_swap16, UInt64.toNat_toUInt16, toBE, toBE]
      exact congrArg reverse (toLE_mod 2 covered.size.toNat)
    rw [pseudoWords, if_pos hfour, ← hlen, ← UInt8.toNat_toUInt16, ← toLE_swap16]
    rfl
  · refine hwords 4 (by simp) _ _ _ (by simp only [hfour, if_false]; rfl) ?_
    have hlen : toLE 4 (swap32 covered.size.toUInt32).toNat = toBE 4 covered.size.toNat := by
      rw [toLE_swap32, UInt64.toNat_toUInt32, toBE, toBE]
      exact congrArg reverse (toLE_mod 4 covered.size.toNat)
    rw [pseudoWords, if_neg hfour, ← hlen, ← UInt8.toNat_toUInt32, ← toLE_swap32]
    rfl

variable {sums : Checksums}

lemma exists_chunksOf (h : calcChecksumsCall c = .ok sums) {field : Arg × CsumInfo}
    (hfield : field ∈ sums.csumMap) :
    ∃ typ before covered, ChunksOf c field typ before covered := by
  obtain ⟨entries, rfl, hfrom⟩ := exists_entries h
  obtain ⟨entry, hentry, rfl⟩ := mem_map.mp hfield
  cases hfrom entry hentry with
  | inet hmem hentry => exact chunksOf_inetEntry hmem hentry
  | pseudo hmem haddrs hentry => exact chunksOf_pseudoEntry hmem haddrs hentry

/-! ## One field -/

lemma toLE_two {v : ℕ} (h : v < 65536) :
    ∃ lo hi : UInt8, toLE 2 v = [lo, hi] ∧ lo.toNat + 256 * hi.toNat = v := by
  refine ⟨UInt8.ofNat v, UInt8.ofNat (v / 256), rfl, ?_⟩
  have hlo : (UInt8.ofNat v).toNat = v % 256 := UInt8.toNat_ofNat'
  have hhi : (UInt8.ofNat (v / 256)).toNat = v / 256 % 256 := UInt8.toNat_ofNat'
  omega

variable {mem : Memory} {addr : ArgId → UInt64}

lemma argBytes_split {covered : Arg} {a : UInt64} {k : ℕ}
    (ha : a = addr covered.id + UInt64.ofNat (2 * k)) (hk : 2 * k + 2 ≤ covered.size.toNat) :
    argBytes mem addr covered = load mem (addr covered.id) (2 * k) ++ load mem a 2 ++
      load mem (addr covered.id + UInt64.ofNat (2 * k + 2)) (covered.size.toNat - (2 * k + 2)) := by
  have hsize : covered.size.toNat = 2 * k + 2 + (covered.size.toNat - (2 * k + 2)) := by omega
  rw [argBytes]
  nth_rw 1 [hsize]
  rw [load_add, load_add, ha]

lemma length_flatMap_even {α : Type} {f : α → List UInt8} {l : List α}
    (h : ∀ a ∈ l, (f a).length % 2 = 0) : (l.flatMap f).length % 2 = 0 := by
  induction l with
  | nil => rfl
  | cons a l ih =>
    obtain ⟨ha, hl⟩ := forall_mem_cons.mp h
    rw [flatMap_cons, length_append, Nat.add_mod, ha, ih hl]

section

variable {c : Call} {field : Arg × CsumInfo} {typ : CsumType} {before : List CsumChunk}
  {covered : Arg} (hchunks : ChunksOf c field typ before covered)
include hchunks

/-- What the executor sums is the sum of the packet. -/
lemma ChunksOf.sum_eq (mem : Memory) (addr : ArgId → UInt64) :
    (((field.2.chunks.map (csumChunk addr)).map (chunkBytes mem)).map wordSum).sum =
      wordSum (before.flatMap (csumChunkBytes mem addr) ++ argBytes mem addr covered) := by
  have hbytes := hchunks.before_bytes mem addr
  rw [hchunks.chunks_eq]
  clear hchunks
  induction before with
  | nil => simp [chunkBytes_arg]
  | cons chunk before ih =>
    obtain ⟨⟨hchunk, heven, _⟩, hrest⟩ := forall_mem_cons.mp hbytes
    rw [flatMap_cons, append_assoc, wordSum_append heven, ← ih hrest]
    simp [hchunk]

/-- The executor computes the complement of the sum over the packet. -/
lemma ChunksOf.csumInet_eq (mem : Memory) (addr : ArgId → UInt64)
    (hshort : covered.size.toNat < 65536) :
    (csumInet mem (field.2.chunks.map (csumChunk addr))).toNat = 0xffff -
      fold (wordSum (before.flatMap (csumChunkBytes mem addr) ++ argBytes mem addr covered)) := by
  have hlen : ∀ data ∈ (field.2.chunks.map (csumChunk addr)).map (chunkBytes mem),
      data.length < 65536 := by
    rw [hchunks.chunks_eq]
    simp only [map_append, map_cons, map_nil, forall_mem_append,
      forall_mem_map, forall_mem_singleton]
    constructor
    · intro chunk hchunk
      obtain ⟨hbytes, _, hlt⟩ := hchunks.before_bytes mem addr chunk hchunk
      rw [hbytes]
      exact hlt
    · rw [chunkBytes_arg, argBytes, length_load]
      exact hshort
  have hacc := toNat_foldl_csumInetUpdate (show (0 : UInt32).toNat ≤ 0xffff by decide) hlen
  rw [UInt32.toNat_zero, Nat.zero_add, hchunks.sum_eq] at hacc
  rw [csumInet, toNat_csumInetDigest (by rw [hacc]; exact fold_le _), hacc]

/-- Filling in a field that is zero makes its packet verify. -/
lemma ChunksOf.verifies_store (hshort : covered.size.toNat < 65536) {k : ℕ}
    (ha : addr field.1.id = addr covered.id + UInt64.ofNat (2 * k))
    (hk : 2 * k + 2 ≤ covered.size.toNat)
    (hapart : ∀ a, .arg a ∈ before → Apart (addr a.id) a.size.toNat (addr field.1.id) 2)
    (hzero : load mem (addr field.1.id) 2 = [0, 0]) (rt : Runtime) (size kind : UInt64) :
    let mem' := storeArg rt mem (addr field.1.id)
      (.csum size kind (field.2.chunks.map (csumChunk addr)))
    onesSum (before.flatMap (csumChunkBytes mem' addr) ++ argBytes mem' addr covered) = 0xffff := by
  intro mem'
  have hdigest := hchunks.csumInet_eq mem addr hshort
  obtain ⟨lo, hi, hbytes, hvalue⟩ := toLE_two (csumInet mem
    (field.2.chunks.map (csumChunk addr))).toNat_lt
  have hmem' : mem' = store mem (addr field.1.id) [lo, hi] := by
    rw [← hbytes]
    simp [mem', storeArg, copyin, copyinInt, swap, Host.order, binaryFormatNative]
  clear_value mem'
  subst hmem'
  set mem' := store mem (addr field.1.id) [lo, hi]
  -- the chunks before the covered argument are left as they are
  have hbefore : before.flatMap (csumChunkBytes mem' addr) =
      before.flatMap (csumChunkBytes mem addr) := by
    apply flatMap_congr
    intro chunk hchunk
    cases chunk with
    | arg a => exact load_store_of_apart (Nat.le_of_lt a.size.toNat_lt) (hapart a hchunk)
    | const value size => rfl
  have heven : (before.flatMap (csumChunkBytes mem addr)).length % 2 = 0 :=
    length_flatMap_even fun chunk hchunk => (hchunks.before_bytes mem addr chunk hchunk).2.1
  have hself : load mem' (addr field.1.id) 2 = [lo, hi] :=
    load_store_self mem (addr field.1.id) (by simp)
  have hleft : load mem' (addr covered.id) (2 * k) = load mem (addr covered.id) (2 * k) := by
    apply load_store_of_apart (by omega)
    have h := @apart_of_offsets (2 * k) 2 (addr covered.id) 0 (2 * k) (by omega) (by omega)
    rw [ha]
    simpa using h
  have hright : load mem' (addr covered.id + UInt64.ofNat (2 * k + 2))
        (covered.size.toNat - (2 * k + 2)) =
      load mem (addr covered.id + UInt64.ofNat (2 * k + 2))
        (covered.size.toNat - (2 * k + 2)) := by
    apply load_store_of_apart (by omega)
    have h := @apart_of_offsets 2 (covered.size.toNat - (2 * k + 2)) (addr covered.id) (2 * k)
      (2 * k + 2) (by omega) (by omega)
    rw [ha]
    exact h.symm
  rw [hbefore, argBytes_split ha hk, hself, hleft, hright]
  rw [argBytes_split ha hk, hzero] at hdigest
  generalize before.flatMap (csumChunkBytes mem addr) = header at hdigest heven ⊢
  generalize hl : load mem (addr covered.id) (2 * k) = left at hdigest ⊢
  generalize load mem _ (covered.size.toNat - (2 * k + 2)) = right at hdigest ⊢
  have hfront : (header ++ left).length % 2 = 0 := by
    have hlen : left.length = 2 * k := by
      rw [← hl, length_load]
    rw [length_append]
    omega
  have hassoc : ∀ a b : UInt8, header ++ (left ++ [a, b] ++ right) =
      header ++ left ++ [a, b] ++ right := by simp
  rw [hassoc] at hdigest
  have hreplace := wordSum_replace hfront lo hi right
  have hdvd := dvd_add_sub_fold (wordSum (header ++ left ++ [0, 0] ++ right))
  rw [onesSum_eq_ffff_iff, hassoc, hreplace, hvalue, hdigest]
  refine ⟨?_, hdvd⟩
  -- an empty sum is completed by `0xffff`
  intro hsum
  have hzero' : wordSum (header ++ left ++ [0, 0] ++ right) = 0 := by omega
  rw [hzero', fold_eq_self (by omega)] at hsum
  omega

end

/-! ## The data copyins -/

variable {target : Target}

lemma addrIn_of_unique {arg : Arg} {ctx : ArgCtx} {base : UInt64} (hbase : ctx.base = some base)
    {before after : List (Arg × ArgCtx)} (hafter : ∀ visit ∈ after, visit.1.id ≠ arg.id) :
    addrIn target (before ++ (arg, ctx) :: after) arg.id =
      copyinAddr target arg base ctx.offset := by
  have hnone : (after.reverse.findSome? fun visit =>
      if visit.1.id = arg.id then
        visit.2.base.map fun base => copyinAddr target visit.1 base visit.2.offset
      else none) = none := by
    rw [findSome?_eq_none_iff]
    intro visit hvisit
    rw [if_neg (hafter visit (mem_reverse.mp hvisit))]
  rw [addrIn, reverse_append, reverse_cons, append_assoc, findSome?_append, hnone]
  simp [hbase]

/-- How the checksum fields of a call lie in memory. -/
structure CsumLayout (target : Target) (c : Call) (sums : Checksums) : Prop where
  unique : ((foreachArg c).map fun visit => visit.1.id).Nodup
  notOut : ∀ field ∈ sums.csumMap, field.1.dir ≠ .dirOut
  inMemory : ∀ field ∈ sums.csumMap, ∃ ctx base, (field.1, ctx) ∈ foreachArg c ∧
    ctx.base = some base
  disjoint : sums.csumMap.Pairwise fun f g =>
    Apart (c.argAddr target f.1.id) 2 (c.argAddr target g.1.id) 2
  -- the covered argument is the last chunk
  covered : ∀ field ∈ sums.csumMap, ∀ arg, field.2.chunks.getLast? = some (.arg arg) →
    arg.size.toNat < 65536 ∧ ∃ k, 2 * k + 2 ≤ arg.size.toNat ∧
      c.argAddr target field.1.id = c.argAddr target arg.id + UInt64.ofNat (2 * k)
  -- a field is covered by another one only if that one lies at a lower address
  lower : ∀ f ∈ sums.csumMap, ∀ g ∈ sums.csumMap, f.1.id ≠ g.1.id →
    ∀ arg, .arg arg ∈ f.2.chunks →
      ¬ Apart (c.argAddr target arg.id) arg.size.toNat (c.argAddr target g.1.id) 2 →
      c.argAddr target f.1.id < c.argAddr target g.1.id

/-- The fields are 16-bit integers, and their bytes are their own: the copyins of the other
arguments and the addresses of the pseudo header are elsewhere. -/
structure CsumOwnBytes (target : Target) (c : Call) (sums : Checksums) : Prop where
  word : ∀ field ∈ sums.csumMap, ∀ id dir t val, field.1 = .const id dir (.csum t) val →
    t.typeSize = 2 ∧ t.bitfieldOff = 0 ∧ t.bitfieldLen = 0
  copyins : ∀ field ∈ sums.csumMap, ∀ visit ∈ foreachArg c, visit.1.id ≠ field.1.id →
    ∀ i, CopyinOf target visit i →
      Apart (c.argAddr target field.1.id) 2 i.addr (extent i.arg)
  addresses : ∀ field ∈ sums.csumMap, ∀ arg, .arg arg ∈ field.2.chunks.dropLast →
    Apart (c.argAddr target arg.id) arg.size.toNat (c.argAddr target field.1.id) 2

/-- The copyin of a checksum field clears it. -/
lemma storeArg_csumField {w : ExecContext} {id : ArgId} {dir : Dir} {t : CsumType} {val : UInt64}
    (hsize : t.typeSize = 2) (hoff : t.bitfieldOff = 0) (hlen : t.bitfieldLen = 0)
    {written : InstrArg} (hwritten : writeArg target w (.const id dir (.csum t) val) = .ok written)
    (hcheck : checkCopyinArg written = .ok ()) (rt : Runtime) (mem : Memory) (addr : UInt64) :
    load (storeArg rt mem addr written) addr 2 = [0, 0] := by
  have hinfo : written = writeConstArg 2 0 0 0 0 t.argFormat := by
    have hunit : t.unitSize = 2 := by simp [IntTypeCommon.unitSize, hlen, hsize]
    simp only [writeArg, ScalarType.common, ScalarType.value, hunit, hoff, hlen] at hwritten
    exact (Except.ok.inj hwritten).symm
  have hstore : storeArg rt mem addr written = store mem addr [0, 0] := by
    -- the text formats do not fit a field of two bytes
    have hval : ∀ info : UInt64, info >>> 32 = 0 → readConstArg rt info 0 = 0 := by
      intro info hstride
      rw [readConstArg, hstride, UInt64.zero_mul, UInt64.add_zero]
    subst hinfo
    cases hformat : t.argFormat with
    | formatNative =>
      have hconst : writeConstArg 2 0 0 0 0 .formatNative = .const 0x2 0 := by decide
      rw [hconst, storeArg, hval _ (by decide)]
      rfl
    | formatBigEndian =>
      have hconst : writeConstArg 2 0 0 0 0 .formatBigEndian = .const 0x102 0 := by decide
      rw [hconst, storeArg, hval _ (by decide)]
      rfl
    | formatStrDec | formatStrHex | formatStrOct =>
      rw [hformat] at hcheck
      exact absurd hcheck (by decide)
  rw [hstore]
  exact load_store_self mem addr (by simp)

variable {mem' : Memory}

/-- After the data copyins the checksum fields are zero. -/
lemma load_field_eq_zero {c : Call} {w w' : ExecContext} {out : List CopyinInstr}
    (hlayout : CsumLayout target c sums) (hown : CsumOwnBytes target c sums)
    (hsums : calcChecksumsCall c = .ok sums) (hcopyin : writeCopyin target sums w c = .ok (out, w'))
    {rt : Runtime} (hexec : execCopyins rt mem out = .ok mem') {field : Arg × CsumInfo}
    (hfield : field ∈ sums.csumMap) : load mem' (c.argAddr target field.1.id) 2 = [0, 0] := by
  obtain ⟨typ, _, _, hchunks⟩ := exists_chunksOf hsums hfield
  obtain ⟨ctx, base, hvisit, hbase⟩ := hlayout.inMemory field hfield
  obtain ⟨before, after, hvisits⟩ := append_of_mem hvisit
  have hunique := hlayout.unique
  rw [hvisits, map_append, map_cons, nodup_append, nodup_cons] at hunique
  have hafter : ∀ visit ∈ after, visit.1.id ≠ field.1.id := by
    intro visit hmem heq
    exact hunique.2.1.1 (mem_map.mpr ⟨visit, hmem, heq⟩)
  have haddr : c.argAddr target field.1.id = copyinAddr target field.1 base ctx.offset := by
    rw [Call.argAddr, hvisits, addrIn_of_unique hbase hafter]
  rw [writeCopyin, hvisits] at hcopyin
  obtain ⟨out₁, w₁, out', _, hrest, rfl⟩ := emitAll_append_eq_ok_iff.1 hcopyin
  obtain ⟨out₂, w₂, out₃, hmine, hlater, rfl⟩ := emitAll_cons_eq_ok_iff.1 hrest
  obtain ⟨mem₁, _, hexec⟩ := execCopyins_append_eq_ok_iff.1 hexec
  obtain ⟨mem₂, hexec₂, hexec₃⟩ := execCopyins_append_eq_ok_iff.1 hexec
  -- the later copyins leave the field alone
  have hkeep : load mem' (c.argAddr target field.1.id) 2 =
      load mem₂ (c.argAddr target field.1.id) 2 := by
    apply load_execCopyins_of_apart hexec₃ (by decide)
    intro i hi
    obtain ⟨visit, hmem, hcopyin⟩ := mem_emitAll_copyinArg hlater i hi
    have hvisited : visit ∈ foreachArg c := by
      rw [hvisits]
      exact mem_append_right _ (mem_cons_of_mem _ hmem)
    exact hown.copyins field hfield visit hvisited (hafter visit hmem) i hcopyin
  rw [hkeep]
  obtain ⟨_, _, id, dir, val, hconst⟩ := csumField_of_mem hchunks.field_mem
  obtain ⟨hsize, hoff, hlen⟩ := hown.word field hfield id dir typ val hconst
  have hskip : skipsCopyin field.1 = false := by
    have hdir := hlayout.notOut field hfield
    rw [hconst] at hdir ⊢
    simp only [skipsCopyin, Arg.dir, Arg.isPad, ScalarType.isPad, Arg.size, ScalarType.common] at hdir ⊢
    simp [hdir, hsize]
  obtain ⟨-, ⟨-, hskipped⟩ | ⟨base', written, rfl, hwritten, hbase', -⟩⟩ := copyinArg_cases hmine
  · simp [isCopied, hbase, hskip] at hskipped
  · obtain ⟨hcheck, hexec⟩ := execCopyins_cons_eq_ok_iff.1 hexec₂
    cases hexec
    rw [hbase] at hbase'
    cases hbase'
    rw [hconst] at hwritten
    rw [haddr]
    exact storeArg_csumField hsize hoff hlen hwritten hcheck rt mem₁ _

/-! ## The checksum copyins -/

lemma not_apart_self (a : UInt64) {n n' : ℕ} (hn : 0 < n) (hn' : 0 < n') : ¬ Apart a n a n' := by
  intro h
  have hzero : (a - a).toNat = 0 := by simp
  apply h a
  · rw [InRange, hzero]
    exact hn
  · rw [InRange, hzero]
    exact hn'

/-- The order in which the fields are filled in: the addresses go down, and no field overlaps
another one. -/
lemma writeChecksums_order {c : Call} (hlayout : CsumLayout target c sums)
    (hsums : calcChecksumsCall c = .ok sums)
    (haddr : ∀ id, sums.Reads id → addr id = c.argAddr target id) (env : ExecEnv) :
    ∃ fields : List (Arg × CsumInfo), fields.Perm sums.csumMap ∧
      writeChecksums env sums addr = fields.map (csumInstr (c.argAddr target)) ∧
      fields.Pairwise fun f g => c.argAddr target g.1.id ≤ c.argAddr target f.1.id ∧
        Apart (c.argAddr target f.1.id) 2 (c.argAddr target g.1.id) 2 := by
  let sorted := sliceStable (fun a b => addr a.1.id < addr b.1.id) (env.visit sums.csumMap)
  have hperm : sorted.reverse.Perm sums.csumMap :=
    (reverse_perm _).trans ((sliceStable_perm _ _).trans (env.visit_perm _))
  have hread : ∀ field ∈ sorted.reverse, addr field.1.id = c.argAddr target field.1.id :=
    fun field hfield => haddr _ (.inl ⟨field, hperm.mem_iff.mp hfield, rfl⟩)
  refine ⟨sorted.reverse, hperm, ?_, ?_⟩
  · apply map_congr_left
    intro field hfield
    have hmem := hperm.mem_iff.mp hfield
    exact csumInstr_congr haddr hmem ((calcChecksumsCall_spec hsums).1 field hmem).2
  · have hsorted : SortedBy (fun a : Arg × CsumInfo => (addr a.1.id).toNat) sorted :=
      (csumLess_compares addr).sortedBy_sliceStable _
    have hdown : sorted.reverse.Pairwise fun f g => addr g.1.id ≤ addr f.1.id := by
      rw [pairwise_reverse]
      exact hsorted.imp fun h => UInt64.le_iff_toNat_le.mpr h
    have hapart : sorted.reverse.Pairwise fun f g =>
        Apart (c.argAddr target f.1.id) 2 (c.argAddr target g.1.id) 2 :=
      (hperm.pairwise_iff fun h => h.symm).mpr hlayout.disjoint
    refine (hdown.imp_of_mem fun {f g} hf hg hle => ?_).and hapart
    rwa [hread f hf, hread g hg] at hle

lemma packet_congr {before : List CsumChunk} {covered : Arg}
    (h : ∀ arg, .arg arg ∈ before ++ [.arg covered] →
      argBytes mem addr arg = argBytes mem' addr arg) :
    before.flatMap (csumChunkBytes mem addr) ++ argBytes mem addr covered =
      before.flatMap (csumChunkBytes mem' addr) ++ argBytes mem' addr covered := by
  rw [h covered (by simp)]
  congr 1
  apply flatMap_congr
  intro chunk hchunk
  cases chunk with
  | arg a => exact h a (mem_append_left _ hchunk)
  | const value size => rfl

/-- Going down in memory, each checksum is right when it is written and stays so. -/
lemma verifies_of_execCopyins {c : Call} (hlayout : CsumLayout target c sums)
    (hown : CsumOwnBytes target c sums)
    {fields : List (Arg × CsumInfo)} (hperm : fields.Perm sums.csumMap)
    (horder : fields.Pairwise fun f g => c.argAddr target g.1.id ≤ c.argAddr target f.1.id ∧
      Apart (c.argAddr target f.1.id) 2 (c.argAddr target g.1.id) 2) {rt : Runtime}
    (hzero : ∀ field ∈ sums.csumMap, load mem (c.argAddr target field.1.id) 2 = [0, 0])
    (hexec : execCopyins rt mem (fields.map (csumInstr (c.argAddr target))) = .ok mem')
    {field : Arg × CsumInfo} (hfield : field ∈ sums.csumMap) {typ : CsumType}
    {before : List CsumChunk} {covered : Arg} (hchunks : ChunksOf c field typ before covered) :
    onesSum (before.flatMap (csumChunkBytes mem' (c.argAddr target)) ++
      argBytes mem' (c.argAddr target) covered) = 0xffff := by
  obtain ⟨fields₁, fields₂, rfl⟩ := append_of_mem (hperm.mem_iff.mpr hfield)
  obtain ⟨_, hafter, hbefore⟩ := pairwise_append.mp horder
  obtain ⟨hlater, _⟩ := pairwise_cons.mp hafter
  rw [map_append, map_cons] at hexec
  obtain ⟨mem₁, hexec₁, hexec⟩ := execCopyins_append_eq_ok_iff.1 hexec
  obtain ⟨_, hexec₂⟩ := execCopyins_cons_eq_ok_iff.1 hexec
  have hlast : field.2.chunks.getLast? = some (.arg covered) := by
    rw [hchunks.chunks_eq, getLast?_concat]
  obtain ⟨hshort, k, hk, haddr⟩ := hlayout.covered field hfield covered hlast
  -- the fields at higher addresses do not overlap this one
  have hzero₁ : load mem₁ (c.argAddr target field.1.id) 2 = [0, 0] := by
    rw [← hzero field hfield]
    apply load_execCopyins_of_apart hexec₁ (by decide)
    rw [forall_mem_map]
    intro g hg
    exact (hbefore g hg field mem_cons_self).2.symm
  have hdrop : ∀ arg, .arg arg ∈ before → Apart (c.argAddr target arg.id) arg.size.toNat
      (c.argAddr target field.1.id) 2 := by
    intro arg harg
    apply hown.addresses field hfield arg
    rw [hchunks.chunks_eq, dropLast_concat]
    exact harg
  have hverifies := hchunks.verifies_store hshort haddr hk hdrop hzero₁ rt field.1.size
    execArgCsumInet
  -- the fields at lower addresses are not covered by this one
  have hkeep : ∀ arg, .arg arg ∈ before ++ [.arg covered] →
      argBytes mem' (c.argAddr target) arg = argBytes (storeArg rt mem₁
        (csumInstr (c.argAddr target) field).addr (csumInstr (c.argAddr target) field).arg)
        (c.argAddr target) arg := by
    intro arg harg
    apply load_execCopyins_of_apart hexec₂ (Nat.le_of_lt arg.size.toNat_lt)
    rw [forall_mem_map]
    intro g hg
    obtain ⟨hle, hapart⟩ := hlater g hg
    have hid : field.1.id ≠ g.1.id := by
      intro hid
      rw [hid] at hapart
      exact not_apart_self _ (by decide) (by decide) hapart
    have hgmem : g ∈ sums.csumMap := hperm.mem_iff.mp (mem_append_right _ (mem_cons_of_mem _ hg))
    by_contra hoverlap
    rw [← hchunks.chunks_eq] at harg
    have hlt := hlayout.lower field hfield g hgmem hid arg harg hoverlap
    exact absurd hle (UInt64.not_le.mpr hlt)
  rw [packet_congr hkeep]
  exact hverifies

/-- After the executor has processed the copyins of a call, every checksum field verifies: the
one's complement sum of its packet is `0xffff`. -/
theorem checksums_verify {env : ExecEnv} {target : Target} {w w' : ExecContext} {c : Call}
    {e : EncodedCall} {sums : Checksums} (hkfuzz : c.callMeta.kfuzzTest = false)
    (hser : serializeCall env target w c = .ok (e, w')) (hsums : calcChecksumsCall c = .ok sums)
    (hnew : ∀ id, sums.Reads id → w.args id = none) (hlayout : CsumLayout target c sums)
    (hown : CsumOwnBytes target c sums) {rt : Runtime} {mem mem' : Memory}
    (hexec : execCopyins rt mem e.copyin = .ok mem') :
    ∀ field ∈ sums.csumMap, ∃ id dir t val bytes, field.1 = .const id dir (.csum t) val ∧
      packetBytes c mem' (c.argAddr target) (field.1, t) = .ok bytes ∧
      onesSum bytes = 0xffff := by
  intro field hfield
  obtain ⟨typ, before, covered, hchunks⟩ := exists_chunksOf hsums hfield
  obtain ⟨_, _, id, dir, val, hconst⟩ := csumField_of_mem hchunks.field_mem
  refine ⟨id, dir, typ, val, _, hconst, hchunks.packet _ _, ?_⟩
  -- the instructions are the data copyins and then the checksums
  obtain ⟨k, hskeleton, rfl⟩ := serializeCall_eq_ok hkfuzz hser
  obtain ⟨w₂, _, hksums, hcopyin, hkaddr, _⟩ := skeleton_eq_ok hskeleton
  rw [hsums] at hksums
  cases hksums
  have haddr : ∀ id, k.sums.Reads id → k.addr id = c.argAddr target id := by
    intro id hid
    rw [hkaddr]
    exact writeCopyin_addr hcopyin hid (hnew id hid)
  obtain ⟨mem₁, hdata, hcsums⟩ := execCopyins_append_eq_ok_iff.1 hexec
  obtain ⟨fields, hperm, hfields, horder⟩ := writeChecksums_order hlayout hsums haddr env
  rw [hfields] at hcsums
  exact verifies_of_execCopyins hlayout hown hperm horder
    (fun _ hmem => load_field_eq_zero hlayout hown hsums hcopyin hdata hmem) hcsums hfield hchunks

/-! ## Examples -/

def packetTarget : Target :=
  { syscalls := [{ id := 0, name := "test$csum_encode" }]
    dataOffset := 0x20000000
    specialPointers := [0] }

def packetCsum : CsumType :=
  { typeName := "csum", typeSize := 2, argFormat := .formatBigEndian, bitfieldOff := 0
    bitfieldLen := 0, bitfieldUnit := 0, bitfieldUnitOff := 0, kind := .csumInet
    buf := parentRef, protocol := 0 }

def packetBlob : BufferType := { typeName := "array[int8]", typeSize := 0, kind := .bufferBlobRand }

/-- A checksum and two bytes that it covers. -/
def packetStruct : Arg :=
  .group 2 .dirIn
    (.struct { typeName := "packet", typeSize := 4, isVarlen := false, fields := ["csum", "data"]
               alignAttr := 0, overlayField := 0 })
    [.const 3 .dirIn (.csum packetCsum) 0, .data 4 .dirIn packetBlob [0x12, 0x34] 0]

/-- A call with a pointer to the packet and more arguments. -/
def packetCall (more : List Arg) : Call :=
  { callMeta := { id := 0, name := "test$csum_encode" }
    args := .pointer 1 .dirIn (.ptr ⟨"ptr", 8⟩) 0 0 (some packetStruct) :: more
    ret := none
    props := .zero }

def packetSums : Checksums :=
  { csumMap := [(.const 3 .dirIn (.csum packetCsum) 0,
      { kind := .csumInet, chunks := [.arg packetStruct] })]
    csumUses := [2] }

def inOrder : ExecEnv :=
  { visit := id
    visit_perm := fun l => List.Perm.refl l
    marshallKFuzztestArg := fun _ => [] }

/-- A second pointer to the same address. -/
def aliasPointer : Arg :=
  .pointer 5 .dirIn (.ptr ⟨"ptr", 8⟩) 0 0 (some (.data 6 .dirIn packetBlob [0x01, 0x00] 0))

/-- The layout of the packet, with any further arguments. -/
lemma csumLayout_packetCall {more : List Arg}
    (hunique : ((foreachArg (packetCall more)).map fun visit => visit.1.id).Nodup)
    (hfield : (packetCall more).argAddr packetTarget 3 = 0)
    (hstruct : (packetCall more).argAddr packetTarget 2 = 0) :
    CsumLayout packetTarget (packetCall more) packetSums where
  unique := hunique
  notOut := by simp [packetSums, Arg.dir]
  inMemory := by
    simp only [packetSums, forall_mem_singleton]
    refine ⟨⟨some 0, 0⟩, 0, ?_, rfl⟩
    simp [foreachArg, packetCall, foreachArgImpl, foreachPointee, packetStruct, foreachInner]
  disjoint := by simp [packetSums]
  covered := by
    simp only [packetSums, forall_mem_singleton, getLast?_singleton]
    intro arg harg
    cases harg
    refine ⟨by decide, 0, by decide, ?_⟩
    show (packetCall more).argAddr packetTarget 3 = (packetCall more).argAddr packetTarget 2 + 0
    rw [hfield, hstruct]
    rfl
  lower := by
    simp only [packetSums, forall_mem_singleton]
    intro hne
    exact absurd rfl hne

/-! A TCP packet behind an IPv4 header, both with a checksum. -/

def tcpCsum : CsumType := { packetCsum with kind := .csumPseudo, protocol := 6 }

def packetGroup (id : ArgId) (typeName : String) (typeSize : UInt64) (fields : List String)
    (inner : List Arg) : Arg :=
  .group id .dirIn (.struct { typeName, typeSize, isVarlen := false, fields, alignAttr := 0
                              overlayField := 0 }) inner

def sourceAddr : Arg := .data 5 .dirIn packetBlob [127, 0, 0, 1] 0

def destAddr : Arg := .data 6 .dirIn packetBlob [127, 0, 0, 2] 0

def ipv4Header : Arg :=
  packetGroup 3 "ipv4_header" 10 ["csum", "src_ip", "dst_ip"]
    [.const 4 .dirIn (.csum packetCsum) 0, sourceAddr, destAddr]

def tcpPacket : Arg :=
  packetGroup 7 "tcp_packet" 4 ["csum", "data"]
    [.const 8 .dirIn (.csum tcpCsum) 0, .data 9 .dirIn packetBlob [0x12, 0x34] 0]

def ipv4Packet : Arg :=
  packetGroup 2 "ipv4_packet" 14 ["header", "payload"] [ipv4Header, tcpPacket]

def ipv4Pointer : Arg := .pointer 1 .dirIn (.ptr ⟨"ptr", 8⟩) 0 0 (some ipv4Packet)

def tcpCall : Call := { packetCall [] with args := [ipv4Pointer] }

def tcpSums : Checksums :=
  { csumMap :=
      [(.const 4 .dirIn (.csum packetCsum) 0, { kind := .csumInet, chunks := [.arg ipv4Header] }),
        (.const 8 .dirIn (.csum tcpCsum) 0, composePseudoCsumIPv4 tcpPacket sourceAddr destAddr 6)]
    csumUses := [3, 7, 5, 6] }

lemma foreachArg_tcpCall : foreachArg tcpCall =
    [(ipv4Pointer, ⟨none, 0⟩), (ipv4Packet, ⟨some 0, 0⟩), (ipv4Header, ⟨some 0, 0⟩),
      (.const 4 .dirIn (.csum packetCsum) 0, ⟨some 0, 0⟩), (sourceAddr, ⟨some 0, 2⟩),
      (destAddr, ⟨some 0, 6⟩), (tcpPacket, ⟨some 0, 10⟩),
      (.const 8 .dirIn (.csum tcpCsum) 0, ⟨some 0, 10⟩),
      (.data 9 .dirIn packetBlob [0x12, 0x34] 0, ⟨some 0, 12⟩)] := rfl

lemma apart_of_toNat {a b : UInt64} {n n' : ℕ} (h : a.toNat + n ≤ b.toNat)
    (hb : b.toNat + n' ≤ 2 ^ 64) : Apart a n b n' := by
  simpa using apart_of_offsets 0 h hb

/-- The header lies before the TCP packet, and each has its own checksum. -/
lemma csumLayout_tcpCall : CsumLayout packetTarget tcpCall tcpSums where
  unique := by decide
  notOut := by simp [tcpSums, Arg.dir]
  inMemory := by
    simp only [tcpSums, forall_mem_cons, not_mem_nil, false_implies, implies_true, and_true]
    rw [foreachArg_tcpCall]
    exact ⟨⟨⟨some 0, 0⟩, 0, by simp, rfl⟩, ⟨some 0, 10⟩, 0, by simp, rfl⟩
  disjoint := by
    simp only [tcpSums, pairwise_cons, forall_mem_cons, not_mem_nil, false_implies,
      implies_true, and_true, Pairwise.nil]
    exact apart_of_toNat (by decide) (by decide)
  covered := by
    simp only [tcpSums, forall_mem_cons, not_mem_nil, false_implies, implies_true, and_true]
    refine ⟨fun arg harg => ?_, fun arg harg => ?_⟩
    all_goals
      cases harg
      exact ⟨by decide, 0, by decide, by decide⟩
  lower := by
    simp only [tcpSums, composePseudoCsumIPv4, forall_mem_cons, not_mem_nil, false_implies,
      implies_true, and_true]
    refine ⟨⟨fun hne => absurd rfl hne, fun _ arg harg hnot => absurd ?_ hnot⟩,
      fun _ arg harg hnot => absurd ?_ hnot, fun hne => absurd rfl hne⟩
    · cases mem_singleton.mp harg
      exact apart_of_toNat (by decide) (by decide)
    · simp only [mem_cons, CsumChunk.arg.injEq, reduceCtorEq, not_mem_nil, or_false, false_or]
        at harg
      obtain rfl | rfl | rfl := harg
      all_goals exact (apart_of_toNat (by decide) (by decide)).symm

/-- The copyins of the packet: whose they are, where they go, and how long they are. -/
lemma mem_copyins_tcpCall {visit : Arg × ArgCtx} (hvisit : visit ∈ foreachArg tcpCall)
    {i : CopyinInstr} (hi : CopyinOf packetTarget visit i) :
    (visit.1.id, i.addr, extent i.arg) ∈
      ([(4, 0, 2), (5, 2, 4), (6, 6, 4), (8, 10, 2), (9, 12, 2)] : List (ArgId × UInt64 × ℕ)) := by
  obtain ⟨base, hbase, haddr⟩ := hi.addr_eq
  obtain ⟨w, hwritten⟩ := hi.written
  have hskipped := hi.not_skipped
  simp only [foreachArg_tcpCall, mem_cons, not_mem_nil, or_false] at hvisit
  rcases hvisit with rfl | rfl | rfl | rfl | rfl | rfl | rfl | rfl | rfl
  · cases hbase
  all_goals first
    | exact absurd hskipped (by decide)
    | cases hbase
      rw [haddr, ← Except.ok.inj hwritten]
      decide

/-- No other copyin touches the two fields. -/
lemma csumOwnBytes_tcpCall : CsumOwnBytes packetTarget tcpCall tcpSums where
  word := by
    simp only [tcpSums, forall_mem_cons, not_mem_nil, false_implies, implies_true, and_true]
    refine ⟨fun id dir t val hconst => ?_, fun id dir t val hconst => ?_⟩
    all_goals
      cases hconst
      decide
  copyins := by
    simp only [tcpSums, forall_mem_cons, not_mem_nil, false_implies, implies_true, and_true]
    refine ⟨fun visit hvisit hne i hi => ?_, fun visit hvisit hne i hi => ?_⟩
    all_goals
      have hmem := mem_copyins_tcpCall hvisit hi
      simp only [mem_cons, Prod.mk.injEq, not_mem_nil, or_false] at hmem
      obtain ⟨hid, haddr, hlen⟩ | ⟨hid, haddr, hlen⟩ | ⟨hid, haddr, hlen⟩ | ⟨hid, haddr, hlen⟩ |
        ⟨hid, haddr, hlen⟩ := hmem
    all_goals first
      | exact absurd hid hne
      | rw [haddr, hlen]
        first
          | exact apart_of_toNat (by decide) (by decide)
          | exact (apart_of_toNat (by decide) (by decide)).symm
  addresses := by
    simp only [tcpSums, composePseudoCsumIPv4, forall_mem_cons, not_mem_nil, false_implies,
      implies_true, and_true]
    refine ⟨fun arg harg => absurd harg not_mem_nil, fun arg harg => ?_⟩
    simp only [dropLast, mem_cons, CsumChunk.arg.injEq, reduceCtorEq, not_mem_nil, or_false] at harg
    obtain rfl | rfl := harg
    all_goals exact apart_of_toNat (by decide) (by decide)

/-- Both checksums verify, that of the header and that of the TCP packet over its pseudo header. -/
theorem checksums_verify_tcpCall :
    ∃ e w' mem', serializeCall inOrder packetTarget .init tcpCall = .ok (e, w') ∧
      execCopyins ⟨0, 0x20000000, fun _ => none⟩ (fun _ => 0xaa) e.copyin = .ok mem' ∧
      ∀ field ∈ tcpSums.csumMap, ∃ id dir t val bytes, field.1 = .const id dir (.csum t) val ∧
        packetBytes tcpCall mem' (tcpCall.argAddr packetTarget) (field.1, t) = .ok bytes ∧
        onesSum bytes = 0xffff := by
  obtain ⟨e, w', hser⟩ : ∃ e w', serializeCall inOrder packetTarget .init tcpCall = .ok (e, w') :=
    ⟨_, _, rfl⟩
  obtain ⟨mem', hexec⟩ : ∃ mem', execCopyins ⟨0, 0x20000000, fun _ => none⟩ (fun _ => 0xaa)
      e.copyin = .ok mem' := by
    cases hser
    exact ⟨_, rfl⟩
  exact ⟨e, w', mem', hser, hexec, checksums_verify rfl hser rfl (fun _ _ => rfl)
    csumLayout_tcpCall csumOwnBytes_tcpCall hexec⟩

/-- The data of a second pointer to the same address overwrites the cleared field, and the
checksum is computed over it. -/
theorem checksum_wrong_aliasPointer :
    ∃ e w' mem' bytes, CsumLayout packetTarget (packetCall [aliasPointer]) packetSums ∧
      calcChecksumsCall (packetCall [aliasPointer]) = .ok packetSums ∧
      serializeCall inOrder packetTarget .init (packetCall [aliasPointer]) = .ok (e, w') ∧
      execCopyins ⟨0, 0x20000000, fun _ => none⟩ (fun _ => 0) e.copyin = .ok mem' ∧
      packetBytes (packetCall [aliasPointer]) mem' ((packetCall [aliasPointer]).argAddr packetTarget)
        (.const 3 .dirIn (.csum packetCsum) 0, packetCsum) = .ok bytes ∧
      onesSum bytes = 0xfeff := by
  refine ⟨_, _, _, _, csumLayout_packetCall (by decide) (by decide) (by decide), rfl, rfl, rfl,
    rfl, ?_⟩
  decide +kernel

end KConfuzz.Executor
