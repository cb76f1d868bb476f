import KConfuzz.Lib.ExceptFold
import KConfuzz.Prog.Args

/-!
# Checksum fields (`prog/checksum.go`)

Which checksum fields a call has and over what the executor has to compute them. A panic of the
source is an error with its text.
-/

namespace KConfuzz

open Lib.ExceptFold List

/-- A piece of the data a checksum is computed over: the memory of an argument, or a constant. -/
inductive CsumChunk where
  | arg (a : Arg)
  | const (value size : UInt64)

structure CsumInfo where
  kind : CsumKind
  chunks : List CsumChunk

/-- The checksum fields of a call, in the order in which they enter the map of the source, and
the identities of the arguments they are computed over. -/
structure Checksums where
  csumMap : List (Arg × CsumInfo)
  csumUses : List ArgId

def Checksums.empty : Checksums := { csumMap := [], csumUses := [] }

/-- `swap16` -/
def swap16 (v : UInt16) : UInt16 :=
  let v0 := v.toUInt8
  let v1 := (v >>> 8).toUInt8
  v1.toUInt16 ||| v0.toUInt16 <<< 8

/-- `swap32` -/
def swap32 (v : UInt32) : UInt32 :=
  let v0 := v.toUInt8
  let v1 := (v >>> 8).toUInt8
  let v2 := (v >>> 16).toUInt8
  let v3 := (v >>> 24).toUInt8
  v3.toUInt32 ||| v2.toUInt32 <<< 8 ||| v1.toUInt32 <<< 16 ||| v0.toUInt32 <<< 24

/-- `InnerArg`: what a chain of pointers leads to. -/
def innerArg : Arg → Option Arg
  | .pointer _ _ (.ptr _) _ _ (some res) => innerArg res
  | .pointer _ _ (.ptr _) _ _ none => none
  | arg => some arg

/-- `ParentRef` -/
def parentRef : String := "parent"

/-- The entries of `parentsMap` for a visited argument: the fields of a struct, followed through
pointers, have the struct as their parent. -/
def parentEntries : Arg → List (ArgId × Arg)
  | arg@(.group _ _ (.struct _) inner) =>
    inner.filterMap fun field => (innerArg field).map fun child => (child.id, arg)
  | _ => []

/-- `parentsMap[arg]`; a later entry replaces an earlier one. -/
def parentOf (parentsMap : List (ArgId × Arg)) (id : ArgId) : Option Arg :=
  (parentsMap.reverse.find? (·.1 == id)).map (·.2)

/-- The loop of `findCsummedArg` over the parents; there are no more of them than entries in the
map. -/
def findParent (parentsMap : List (ArgId × Arg)) (buf : String) : ℕ → Option Arg → Option Arg
  | _, none => none
  | 0, some _ => none
  | n + 1, some parent =>
    if buf = parent.typeCommon.typeName then some parent
    else findParent parentsMap buf n (parentOf parentsMap parent.id)

def findCsummedArg (id : ArgId) (typ : CsumType) (parentsMap : List (ArgId × Arg)) :
    Except String Arg :=
  let parent := parentOf parentsMap id
  if typ.buf = parentRef then
    match parent with
    | some csummedArg => .ok csummedArg
    | none => .error (parentRef.quote ++ " for " ++ typ.typeName.quote ++ " is not in parents map")
  else
    match findParent parentsMap typ.buf parentsMap.length parent with
    | some csummedArg => .ok csummedArg
    | none => .error ("csum field " ++ typ.typeName.quote ++ " references non existent field "
        ++ typ.buf.quote)

def composePseudoCsumIPv4 (tcpPacket srcAddr dstAddr : Arg) (protocol : UInt8) : CsumInfo :=
  { kind := .csumInet
    chunks :=
      [.arg srcAddr, .arg dstAddr, .const (swap16 protocol.toUInt16).toUInt64 2,
        .const (swap16 tcpPacket.size.toUInt16).toUInt64 2, .arg tcpPacket] }

def composePseudoCsumIPv6 (tcpPacket srcAddr dstAddr : Arg) (protocol : UInt8) : CsumInfo :=
  { kind := .csumInet
    chunks :=
      [.arg srcAddr, .arg dstAddr, .const (swap32 tcpPacket.size.toUInt32).toUInt64 4,
        .const (swap32 protocol.toUInt32).toUInt64 4, .arg tcpPacket] }

def getFieldByName (t : StructType) (inner : List Arg) (name : String) : Except String Arg :=
  match (t.fields.zip inner).find? (·.1 == name) with
  | some (_, field) => .ok field
  | none => .error ("failed to find " ++ name ++ " field in " ++ t.typeName)

def extractHeaderParams (t : StructType) (inner : List Arg) (size : UInt64) :
    Except String (Arg × Arg) := do
  let srcAddr ← getFieldByName t inner "src_ip"
  let dstAddr ← getFieldByName t inner "dst_ip"
  if srcAddr.size ≠ size ∨ dstAddr.size ≠ size then
    throw ("src/dst_ip fields in " ++ t.typeName ++ " must be " ++ toString size ++ " bytes")
  else return (srcAddr, dstAddr)

/-- The source and destination addresses that a visited argument holds, if it is a header. -/
def headerParams : Arg → Except String (Option (Arg × Arg))
  | .group _ _ (.struct t) inner =>
    -- syz_csum_* structs are used in tests
    if t.templateName ∈ ["ipv4_header", "syz_csum_ipv4_header"] then
      return some (← extractHeaderParams t inner 4)
    else if t.templateName ∈ ["ipv6_packet_t", "syz_csum_ipv6_header"] then
      return some (← extractHeaderParams t inner 16)
    else return none
  | _ => return none

/-- The addresses of the last header visited. -/
def ipAddrs (visited : List Arg) : Except String (Option (Arg × Arg)) :=
  visited.foldlM (fun found arg => do return (← headerParams arg).or found) none

/-- A checksum field of the given kind. -/
def csumField? (kind : CsumKind) : Arg → Option (Arg × CsumType)
  | arg@(.const _ _ (.csum t) _) => if t.kind = kind then some (arg, t) else none
  | _ => none

/-- An entry of the map, with the arguments it is computed over. -/
structure CsumEntry where
  arg : Arg
  info : CsumInfo
  uses : List ArgId

/-- A generic inet checksum. -/
def inetEntry (parentsMap : List (ArgId × Arg)) (field : Arg × CsumType) :
    Except String CsumEntry := do
  let csummedArg ← findCsummedArg field.1.id field.2 parentsMap
  return { arg := field.1, info := { kind := .csumInet, chunks := [.arg csummedArg] }
           uses := [csummedArg.id] }

def pseudoEntry (parentsMap : List (ArgId × Arg)) (ipSrcAddr ipDstAddr : Arg)
    (field : Arg × CsumType) : Except String CsumEntry := do
  let csummedArg ← findCsummedArg field.1.id field.2 parentsMap
  let protocol := field.2.protocol.toUInt8
  let info :=
    if ipSrcAddr.size = 4 then composePseudoCsumIPv4 csummedArg ipSrcAddr ipDstAddr protocol
    else composePseudoCsumIPv6 csummedArg ipSrcAddr ipDstAddr protocol
  return { arg := field.1, info, uses := [csummedArg.id, ipSrcAddr.id, ipDstAddr.id] }

def pseudoEntries (visited : List Arg) (parentsMap : List (ArgId × Arg))
    (pseudoCsumFields : List (Arg × CsumType)) : Except String (List CsumEntry) :=
  -- No need to continue if there are no pseudo csum fields.
  if pseudoCsumFields.isEmpty then .ok []
  else do
    match ← ipAddrs visited with
    | none => throw "no ipv4 nor ipv6 header found"
    | some (ipSrcAddr, ipDstAddr) =>
      pseudoCsumFields.mapM (pseudoEntry parentsMap ipSrcAddr ipDstAddr)

def calcChecksumsCall (c : Call) : Except String Checksums := do
  let visited := (foreachArg c).map Prod.fst
  let inetCsumFields := visited.filterMap (csumField? .csumInet)
  let pseudoCsumFields := visited.filterMap (csumField? .csumPseudo)
  let parentsMap := visited.flatMap parentEntries
  let inet ← inetCsumFields.mapM (inetEntry parentsMap)
  let pseudo ← pseudoEntries visited parentsMap pseudoCsumFields
  let entries := inet ++ pseudo
  return { csumMap := entries.map fun entry => (entry.arg, entry.info)
           csumUses := entries.flatMap (·.uses) }

/-! ## The arguments of a checksum -/

/-- The field and what it is computed over are arguments that were visited. -/
structure CsumEntry.InTree (visited : List Arg) (entry : CsumEntry) : Prop where
  arg_mem : entry.arg ∈ visited
  chunks : ∀ a, .arg a ∈ entry.info.chunks → a.id ∈ entry.uses
  uses : ∀ id ∈ entry.uses, id ∈ visited.map Arg.id

variable {visited : List Arg}

lemma csumField_of_mem {kind : CsumKind} {field : Arg × CsumType}
    (h : field ∈ visited.filterMap (csumField? kind)) :
    field.1 ∈ visited ∧ field.2.kind = kind ∧
      ∃ id dir val, field.1 = .const id dir (.csum field.2) val := by
  obtain ⟨arg, harg, hfield⟩ := mem_filterMap.mp h
  unfold csumField? at hfield
  split at hfield
  · split_ifs at hfield with hkind
    cases hfield
    exact ⟨harg, hkind, _, _, _, rfl⟩
  · cases hfield

lemma parentOf_mem {id : ArgId} {parent : Arg}
    (h : parentOf (visited.flatMap parentEntries) id = some parent) : parent ∈ visited := by
  obtain ⟨entry, hfind, rfl⟩ := Option.map_eq_some_iff.mp h
  have hmem := mem_reverse.mp (mem_of_find?_eq_some hfind)
  obtain ⟨arg, harg, hentry⟩ := mem_flatMap.mp hmem
  unfold parentEntries at hentry
  split at hentry
  · obtain ⟨field, -, hchild⟩ := mem_filterMap.mp hentry
    obtain ⟨child, -, rfl⟩ := Option.map_eq_some_iff.mp hchild
    exact harg
  · cases hentry

lemma findParent_mem {buf : String} {n : ℕ} {parent : Option Arg}
    {found : Arg} (hparent : ∀ arg, parent = some arg → arg ∈ visited)
    (h : findParent (visited.flatMap parentEntries) buf n parent = some found) :
    found ∈ visited := by
  induction n generalizing parent with
  | zero => cases parent <;> cases h
  | succ n ih =>
    cases parent with
    | none => cases h
    | some arg =>
      rw [findParent] at h
      split_ifs at h
      · cases h
        exact hparent _ rfl
      · exact ih (fun arg' harg' => parentOf_mem harg') h

/-- The covered argument is one of the call. -/
lemma findCsummedArg_mem {id : ArgId} {typ : CsumType} {found : Arg}
    (h : findCsummedArg id typ (visited.flatMap parentEntries) = .ok found) : found ∈ visited := by
  unfold findCsummedArg at h
  dsimp only at h
  split_ifs at h
  · split at h
    · rename_i parent hparent
      cases h
      exact parentOf_mem hparent
    · cases h
  · split at h
    · rename_i parent hparent
      cases h
      exact findParent_mem (fun arg harg => parentOf_mem harg) hparent
    · cases h

variable {t : StructType}

lemma getFieldByName_mem {inner : List Arg} {name : String} {field : Arg}
    (h : getFieldByName t inner name = .ok field) : field ∈ inner := by
  unfold getFieldByName at h
  split at h
  · rename_i fieldName field' hfind
    cases h
    exact (of_mem_zip (mem_of_find?_eq_some hfind)).2
  · cases h

/-- The addresses of a header are two of its fields, of the size of an address. -/
structure HeaderAddrs (inner : List Arg) (addrs : Arg × Arg) : Prop where
  src_mem : addrs.1 ∈ inner
  dst_mem : addrs.2 ∈ inner
  size : ∃ size ∈ [(4 : UInt64), 16], addrs.1.size = size ∧ addrs.2.size = size

variable {addrs : Arg × Arg} {sums : Checksums}

lemma headerAddrs_of_extractHeaderParams {inner : List Arg} {size : UInt64}
    (hsize : size ∈ [(4 : UInt64), 16]) (h : extractHeaderParams t inner size = .ok addrs) :
    HeaderAddrs inner addrs := by
  simp only [extractHeaderParams, bind_eq_ok_iff] at h
  obtain ⟨src, hsrc, dst, hdst, h⟩ := h
  split_ifs at h with hwrong
  cases h
  obtain ⟨hsrcSize, hdstSize⟩ := not_or.mp hwrong
  exact ⟨getFieldByName_mem hsrc, getFieldByName_mem hdst, size, hsize, not_not.mp hsrcSize,
    not_not.mp hdstSize⟩

lemma headerAddrs_of_headerParams {arg : Arg} (h : headerParams arg = .ok (some addrs)) :
    ∃ id dir typ inner, arg = .group id dir typ inner ∧ HeaderAddrs inner addrs := by
  unfold headerParams at h
  split at h
  · rename_i id dir t inner
    refine ⟨id, dir, .struct t, inner, rfl, ?_⟩
    split_ifs at h
    on_goal 3 => cases h
    all_goals
      rw [bind_eq_ok_iff] at h
      obtain ⟨found, hfound, h⟩ := h
      cases h
      exact headerAddrs_of_extractHeaderParams (by simp) hfound
  · cases h

/-- The addresses are fields of a header. -/
lemma headerAddrs_of_ipAddrs (h : ipAddrs visited = .ok (some addrs)) :
    ∃ id dir typ inner, .group id dir typ inner ∈ visited ∧ HeaderAddrs inner addrs := by
  refine foldlM_invariant
    (fun done found => ∀ addrs, found = some addrs → ∃ id dir typ inner,
      .group id dir typ inner ∈ done ∧ HeaderAddrs inner addrs) ?_ (by simp) h addrs rfl
  intro done arg found found' hfound hstep addrs haddrs
  rw [bind_eq_ok_iff] at hstep
  obtain ⟨header, hheader, hstep⟩ := hstep
  cases hstep
  cases header with
  | none =>
    obtain ⟨id, dir, typ, inner, hmem, haddr⟩ := hfound addrs haddrs
    exact ⟨id, dir, typ, inner, mem_append_left _ hmem, haddr⟩
  | some params =>
    cases haddrs
    obtain ⟨id, dir, typ, inner, rfl, haddr⟩ := headerAddrs_of_headerParams hheader
    exact ⟨id, dir, typ, inner, by simp, haddr⟩

/-- Which field an entry of the map is for. -/
inductive CsumEntry.From (visited : List Arg) (entry : CsumEntry) : Prop
  | inet {field : Arg × CsumType} (mem : field ∈ visited.filterMap (csumField? .csumInet))
      (entry_eq : inetEntry (visited.flatMap parentEntries) field = .ok entry)
  | pseudo {field : Arg × CsumType} (mem : field ∈ visited.filterMap (csumField? .csumPseudo))
      {addrs : Arg × Arg} (addrs_eq : ipAddrs visited = .ok (some addrs))
      (entry_eq : pseudoEntry (visited.flatMap parentEntries) addrs.1 addrs.2 field = .ok entry)

/-- The map consists of the entries for the fields. -/
lemma exists_entries {c : Call} (h : calcChecksumsCall c = .ok sums) :
    ∃ entries : List CsumEntry,
      sums = ⟨entries.map fun entry => (entry.arg, entry.info), entries.flatMap (·.uses)⟩ ∧
      ∀ entry ∈ entries, entry.From ((foreachArg c).map Prod.fst) := by
  simp only [calcChecksumsCall, bind_eq_ok_iff] at h
  obtain ⟨inet, hinet, pseudo, hpseudo, h⟩ := h
  cases h
  refine ⟨inet ++ pseudo, rfl, forall_mem_append.mpr ⟨?_, ?_⟩⟩
  · exact forall_mem_of_mapM (fun _ hmem _ => .inet hmem) hinet
  · unfold pseudoEntries at hpseudo
    split_ifs at hpseudo
    · cases hpseudo
      simp
    · rw [bind_eq_ok_iff] at hpseudo
      obtain ⟨addrs, haddrs, hpseudo⟩ := hpseudo
      cases addrs with
      | none => cases hpseudo
      | some addrs => exact forall_mem_of_mapM (fun _ hmem _ => .pseudo hmem haddrs) hpseudo

/-- An entry is about arguments of the call. -/
lemma CsumEntry.From.inTree (hclosed : ∀ {id dir typ inner field},
      .group id dir typ inner ∈ visited → field ∈ inner → field ∈ visited) {entry : CsumEntry}
    (h : entry.From visited) : entry.InTree visited := by
  cases h with
  | inet hfield h =>
    simp only [inetEntry, bind_eq_ok_iff] at h
    obtain ⟨csummedArg, hcsummed, h⟩ := h
    cases h
    refine ⟨(csumField_of_mem hfield).1, by simp, ?_⟩
    simpa using ⟨csummedArg, findCsummedArg_mem hcsummed, rfl⟩
  | pseudo hfield haddrs h =>
    obtain ⟨_, _, _, _, hgroup, hheader⟩ := headerAddrs_of_ipAddrs haddrs
    simp only [pseudoEntry, bind_eq_ok_iff] at h
    obtain ⟨csummedArg, hcsummed, h⟩ := h
    cases h
    refine ⟨(csumField_of_mem hfield).1, ?_, ?_⟩
    · intro a ha
      split_ifs at ha
      · simp [composePseudoCsumIPv4] at ha
        rcases ha with rfl | rfl | rfl <;> simp
      · simp [composePseudoCsumIPv6] at ha
        rcases ha with rfl | rfl | rfl <;> simp
    · intro id hid
      simp only [mem_cons, not_mem_nil, or_false] at hid
      rcases hid with rfl | rfl | rfl
      · exact mem_map_of_mem (findCsummedArg_mem hcsummed)
      · exact mem_map_of_mem (hclosed hgroup hheader.src_mem)
      · exact mem_map_of_mem (hclosed hgroup hheader.dst_mem)

/-- The checksum fields of a call and all they are computed over are arguments of the call. -/
lemma calcChecksumsCall_spec {c : Call} (h : calcChecksumsCall c = .ok sums) :
    (∀ field ∈ sums.csumMap, field.1 ∈ (foreachArg c).map Prod.fst ∧
        ∀ a, .arg a ∈ field.2.chunks → a.id ∈ sums.csumUses) ∧
      ∀ id ∈ sums.csumUses, id ∈ ((foreachArg c).map Prod.fst).map Arg.id := by
  have hclosed : ∀ {id dir typ inner field}, .group id dir typ inner ∈ (foreachArg c).map Prod.fst →
      field ∈ inner → field ∈ (foreachArg c).map Prod.fst := by
    intro id dir typ inner field hgroup hfield
    rw [map_fst_foreachArg, mem_append] at hgroup ⊢
    rcases hgroup with hret | harg
    · simp [Call.retNodes] at hret
    · obtain ⟨arg, harg, hmem⟩ := mem_flatMap.mp harg
      exact .inr (mem_flatMap.mpr ⟨arg, harg, Arg.mem_subtree_of_mem_inner hfield arg hmem⟩)
  obtain ⟨entries, rfl, hfrom⟩ := exists_entries h
  have htree : ∀ entry ∈ entries, entry.InTree ((foreachArg c).map Prod.fst) :=
    fun entry hentry => (hfrom entry hentry).inTree hclosed
  constructor
  · refine forall_mem_map.mpr fun entry hentry => ?_
    refine ⟨(htree entry hentry).arg_mem, fun a ha => ?_⟩
    exact mem_flatMap.mpr ⟨entry, hentry, (htree entry hentry).chunks a ha⟩
  · intro id hid
    obtain ⟨entry, hentry, hid⟩ := mem_flatMap.mp hid
    exact (htree entry hentry).uses id hid

end KConfuzz
