import KConfuzz.Prog.KFuzzTestRegionTheorems
import Mathlib.Algebra.BigOperators.Fin

/-!
# The blob of a KFuzzTest argument is well formed

The regions of an argument are collected with a work list; `Marshals` is its invariant. The
facts about offsets are there as long as the payload stays below 4 GiB, where the 32-bit fields
of the tables are exact; since the payload only grows, they can be assumed of every earlier
state. The tables are read back with `readBlob`.
-/

namespace KConfuzz.KFuzzTest

open Lib.ExceptFold Lib.LittleEndian Lib.Parser Lib.Rounding Lib.WorkList List Marshalled

variable {ρ : Type} {n : ℕ}

/-! ## Collecting the regions -/

/-- The regions that following pointers from `top` leads to. -/
inductive Reachable (g : ArgGraph n) (top : Fin n) : Fin n → Prop
  | top : Reachable g top top
  | pointsTo {reg dst : Fin n} (h : Reachable g top reg) (hdst : (g reg).PointsTo dst) :
    Reachable g top dst

/-- The visited regions, in the order of their ids. -/
def Marshalled.order (s : Marshalled ρ) : List ρ := s.visitedRegions.map Prod.fst

lemma Marshalled.visited_iff [DecidableEq ρ] {s : Marshalled ρ} {reg : ρ} :
    s.visited reg = true ↔ reg ∈ s.order := by
  rw [visited, lookup_isSome_iff, order, mem_map]
  apply exists_congr
  intro p
  rw [beq_iff_eq, eq_comm]

lemma Marshalled.mem_unvisited [DecidableEq ρ] {s : Marshalled ρ}
    {relocations : List (Relocation ρ)} {dst : ρ} :
    dst ∈ s.unvisited relocations ↔
      (∃ reloc ∈ relocations, reloc.dstRegion = some dst) ∧ dst ∉ s.order := by
  rw [unvisited, mem_filter, mem_filterMap, Bool.not_eq_true', ← visited_iff, Bool.not_eq_true]

/-- The state after `reg` has been written: `e` is its expansion, and `start` and `poison` are
the numbers of zeros before and after it. -/
def Marshalled.add (s : Marshalled (Fin n)) (g : ArgGraph n) (reg : Fin n)
    (e : Expansion (Fin n)) (start poison : ℕ) : Marshalled (Fin n) :=
  { regions := s.regions ++
      [⟨(s.payload.length + start).toUInt32, e.encoded.length.toUInt32⟩]
    allRelocations := s.allRelocations ++ e.relocations
    visitedRegions := s.visitedRegions ++ [(reg, s.regions.length)]
    payload := s.payload ++ List.replicate start 0 ++ e.encoded ++ List.replicate poison 0
    maxAlignment := max s.maxAlignment (regionAlignment (g reg)) }

@[simp] lemma Marshalled.order_add (s : Marshalled (Fin n)) (g : ArgGraph n) (reg : Fin n)
    (e : Expansion (Fin n)) (start poison : ℕ) :
    (s.add g reg e start poison).order = s.order ++ [reg] := by
  simp [order, add]

variable {s : Marshalled (Fin n)} {reg : Fin n}

/-- Visiting a new region adds it with its padding. -/
lemma visitRegion_spec (g : ArgGraph n) (hnew : reg ∉ s.order) (h : (g reg).Supported) :
    ∃ e start poison, kFuzzTestExpandRegion g reg = .ok e ∧ Expands (g reg) reg e [] ∧
      visitRegion g s reg = .ok (s.add g reg e start poison, s.unvisited e.relocations) ∧
      ((s.add g reg e start poison).payload.length < 2 ^ 32 →
        (regionAlignment (g reg)).toNat ∣ s.payload.length + start ∧ 8 ≤ poison) := by
  obtain ⟨e, he, hinv⟩ := kFuzzTestExpandRegion_spec g h
  have hpow := isPowerOfTwo_regionAlignment (g reg)
  obtain ⟨start, hstart, halign⟩ := padWithAlignment_spec (.inr hpow) s.payload 0
  obtain ⟨poison, hpoison, hmin⟩ := @padWithAlignment_spec kFuzzTestPoisonSize
    (.inr (by decide)) (s.payload ++ replicate start 0 ++ e.encoded) kFuzzTestPoisonSize
  have hunvisited : ¬ s.visited reg = true := fun hv => hnew (visited_iff.1 hv)
  refine ⟨e, start, poison, he, hinv, ?_, ?_⟩
  · simp only [visitRegion, hunvisited, he, hstart, hpoison, bind, Except.bind]
    simp [add]
    rfl
  · intro hlen
    have hne : regionAlignment (g reg) ≠ 0 := by
      intro hzero
      rw [hzero] at hpow
      exact absurd hpow (by decide)
    have hsize : kFuzzTestPoisonSize.toNat = 8 := rfl
    simp only [add, length_append, length_replicate] at hlen hmin
    constructor
    · refine (halign ?_).2 hne
      simp
      omega
    · omega

/-- Where a region has ended up in the payload. -/
structure Placed (g : ArgGraph n) (payload : List UInt8) (reg : Fin n) (region : Region) :
    Prop where
  aligned : (regionAlignment (g reg)).toNat ∣ region.offset.toNat
  holds : ∃ e before after, kFuzzTestExpandRegion g reg = .ok e ∧
    payload = before ++ e.encoded ++ List.replicate 8 0 ++ after ∧
    before.length = region.offset.toNat ∧ e.encoded.length = region.size.toNat

def Region.stop (region : Region) : ℕ := region.offset.toNat + region.size.toNat

variable {g : ArgGraph n} {payload : List UInt8} {region : Region}

section

variable (h : Placed g payload reg region)

include h

lemma Placed.append (more : List UInt8) : Placed g (payload ++ more) reg region := by
  obtain ⟨e, before, after, he, rfl, hoff, hsize⟩ := h.holds
  exact ⟨h.aligned, e, before, after ++ more, he, by simp, hoff, hsize⟩

lemma Placed.stop_le : region.stop + 8 ≤ payload.length := by
  obtain ⟨e, before, after, _, rfl, hoff, hsize⟩ := h.holds
  simp only [Region.stop, length_append, length_replicate]
  omega

lemma Placed.poisoned {i : ℕ} (hi : i < 8) : payload[region.stop + i]? = some 0 := by
  obtain ⟨e, before, after, _, rfl, hoff, hsize⟩ := h.holds
  have hstop : region.stop = (before ++ e.encoded).length := by
    rw [length_append, hoff, hsize]
    rfl
  rw [hstop, append_assoc _ (replicate 8 0), getElem?_append_right (by omega),
    Nat.add_sub_cancel_left, getElem?_append_left (by simpa using hi), getElem?_replicate_of_lt hi]

end

/-- The layout of the collected regions: they lie one after the other, and the slot of every
relocation is in its region. -/
structure Laid (g : ArgGraph n) (s : Marshalled (Fin n)) : Prop where
  placed : List.Forall₂ (Placed g s.payload) s.order s.regions
  ordered : s.regions.Pairwise fun r r' => r.stop ≤ r'.offset.toNat
  slots : ∀ reloc ∈ s.allRelocations, ∃ i region,
    s.visitedRegions.lookup reloc.srcRegion = some i ∧ s.regions[i]? = some region ∧
      reloc.offset.toNat + 8 ≤ region.size.toNat

variable {α : Type}

variable {e : Expansion (Fin n)}

/-- A new region lies behind the others. -/
lemma Laid.add (h : Laid g s) (hnew : reg ∉ s.order) (he : kFuzzTestExpandRegion g reg = .ok e)
    (hinv : Expands (g reg) reg e []) {start poison : ℕ}
    (hlen : (s.add g reg e start poison).payload.length < 2 ^ 32)
    (halign : (regionAlignment (g reg)).toNat ∣ s.payload.length + start) (hpoison : 8 ≤ poison) :
    Laid g (s.add g reg e start poison) := by
  simp only [Marshalled.add, length_append, length_replicate] at hlen
  have hoff : (s.payload.length + start).toUInt32.toNat = s.payload.length + start :=
    UInt32.toNat_ofNat_of_lt' (show _ < 2 ^ 32 by omega)
  have hsize : e.encoded.length.toUInt32.toNat = e.encoded.length :=
    UInt32.toNat_ofNat_of_lt' (show _ < 2 ^ 32 by omega)
  have hsplit : replicate poison (0 : UInt8) = replicate 8 0 ++ replicate (poison - 8) 0 := by
    rw [← replicate_add, Nat.add_sub_cancel' hpoison]
  refine ⟨?_, ?_, ?_⟩
  · rw [order_add]
    apply rel_append
    · refine h.placed.imp fun reg' region hplaced => ?_
      simp only [Marshalled.add, append_assoc]
      exact hplaced.append _
    · refine .cons ⟨?_, e, s.payload ++ replicate start 0, replicate (poison - 8) 0,
        he, ?_, ?_, hsize.symm⟩ .nil
      · show _ ∣ (s.payload.length + start).toUInt32.toNat
        rw [hoff]
        exact halign
      · simp only [Marshalled.add, hsplit, append_assoc]
      · rw [length_append, length_replicate]
        exact hoff.symm
  · show (s.regions ++ [_]).Pairwise _
    rw [pairwise_append]
    refine ⟨h.ordered, pairwise_singleton _ _, ?_⟩
    intro region hregion region' hregion'
    obtain rfl := mem_singleton.mp hregion'
    obtain ⟨reg', -, hplaced⟩ := exists_mem_of_forall₂ h.placed hregion
    have hle := hplaced.stop_le
    rw [hoff]
    omega
  · show ∀ reloc ∈ s.allRelocations ++ e.relocations, _
    intro reloc hreloc
    obtain hold | hmine := mem_append.mp hreloc
    · obtain ⟨i, region, hlookup, hregion, hslot⟩ := h.slots reloc hold
      refine ⟨i, region, ?_, ?_, hslot⟩
      · show (s.visitedRegions ++ _).lookup _ = _
        rw [lookup_append, hlookup]
        rfl
      · show (s.regions ++ [_])[i]? = _
        rw [getElem?_append_left (List.getElem?_eq_some_iff.mp hregion).1, hregion]
    · -- the relocations of the new region have its id
      refine ⟨s.regions.length, _, ?_, getElem?_concat_length, ?_⟩
      · have hnone : s.visitedRegions.lookup reg = none := by
          rw [← Option.not_isSome_iff_eq_none]
          exact fun hsome => hnew (visited_iff.1 hsome)
        show (s.visitedRegions ++ _).lookup _ = _
        rw [hinv.src reloc hmine, lookup_append, hnone]
        simp
      · rw [hsize]
        exact hinv.slot (by omega) reloc hmine

/-- The invariant of the loop that collects the regions. -/
structure Marshals (g : ArgGraph n) (top : Fin n) (s : Marshalled (Fin n))
    (queue : List (Fin n)) : Prop where
  ids : ∀ p ∈ s.visitedRegions, p.2 < s.regions.length
  nodup : s.order.Nodup
  reachable : ∀ reg ∈ s.order, Reachable g top reg
  queued : ∀ reg ∈ queue, Reachable g top reg
  top : top ∈ s.order ∨ top ∈ queue
  closed : ∀ reg ∈ s.order, ∀ dst, (g reg).PointsTo dst → dst ∈ s.order ∨ dst ∈ queue
  relocs : ∀ reloc ∈ s.allRelocations, reloc.srcRegion ∈ s.order ∧
    ∀ dst, reloc.dstRegion = some dst → (g reloc.srcRegion).PointsTo dst
  maxAlignment : isPowerOfTwo s.maxAlignment = true
  aligned : ∀ reg ∈ s.order, (regionAlignment (g reg)).toNat ∣ s.maxAlignment.toNat
  laid : s.payload.length < 2 ^ 32 → Laid g s

lemma Marshals.init (g : ArgGraph n) (top : Fin n) : Marshals g top .init [top] where
  ids := by simp [Marshalled.init]
  nodup := by simp [Marshalled.order, Marshalled.init]
  reachable := by simp [Marshalled.order, Marshalled.init]
  queued := by simpa using Reachable.top
  top := by simp
  closed := by simp [Marshalled.order, Marshalled.init]
  relocs := by simp [Marshalled.init]
  maxAlignment := by
    show isPowerOfTwo 8 = true
    decide
  aligned := by simp [Marshalled.order, Marshalled.init]
  laid := fun _ => ⟨.nil, .nil, by simp [Marshalled.init]⟩

variable {top : Fin n} {queue : List (Fin n)}

lemma Marshals.skip (h : Marshals g top s (reg :: queue)) (hreg : reg ∈ s.order) :
    Marshals g top s queue := by
  have hcover : ∀ dst, dst ∈ s.order ∨ dst ∈ reg :: queue → dst ∈ s.order ∨ dst ∈ queue := by
    intro dst hdst
    obtain hmem | hmem := hdst
    · exact .inl hmem
    · obtain rfl | hmem := mem_cons.mp hmem
      · exact .inl hreg
      · exact .inr hmem
  exact
    { h with
      queued := fun dst hdst => h.queued dst (mem_cons_of_mem reg hdst)
      top := hcover top h.top
      closed := fun src hsrc dst hdst => hcover dst (h.closed src hsrc dst hdst) }

/-- A visit keeps the regions and what is still to come. -/
lemma Marshals.add (h : Marshals g top s (reg :: queue)) (hnew : reg ∉ s.order)
    (he : kFuzzTestExpandRegion g reg = .ok e) (hinv : Expands (g reg) reg e []) {start poison : ℕ}
    (hpad : (s.add g reg e start poison).payload.length < 2 ^ 32 →
      (regionAlignment (g reg)).toNat ∣ s.payload.length + start ∧ 8 ≤ poison) :
    Marshals g top (s.add g reg e start poison) (queue ++ s.unvisited e.relocations) := by
  have hreg : Reachable g top reg := h.queued reg mem_cons_self
  have hpow := isPowerOfTwo_regionAlignment (g reg)
  have hmax := toNat_dvd_max h.maxAlignment hpow
  -- what was in the queue is still there, except `reg`, which is visited now
  have hcover : ∀ dst, dst ∈ s.order ∨ dst ∈ reg :: queue →
      dst ∈ s.order ++ [reg] ∨ dst ∈ queue ++ s.unvisited e.relocations := by
    intro dst hdst
    simp only [mem_cons, mem_append, not_mem_nil, or_false] at hdst ⊢
    tauto
  have hnewdst : ∀ dst, (g reg).PointsTo dst →
      dst ∈ s.order ++ [reg] ∨ dst ∈ queue ++ s.unvisited e.relocations := by
    intro dst hdst
    obtain ⟨arg, harg, _⟩ | hreloc := hinv.covers dst hdst
    · cases harg
    · by_cases hvisited : dst ∈ s.order
      · exact .inl (mem_append_left _ hvisited)
      · exact .inr (mem_append_right _ (mem_unvisited.2 ⟨hreloc, hvisited⟩))
  refine ⟨?_, ?_, ?_, ?_, ?_, ?_, ?_, ?_, ?_, ?_⟩
  · simp only [Marshalled.add, forall_mem_append, forall_mem_singleton,
      length_append, length_singleton]
    refine ⟨fun p hp => ?_, by omega⟩
    have hlt := h.ids p hp
    omega
  · rw [order_add, nodup_append]
    refine ⟨h.nodup, nodup_singleton reg, ?_⟩
    intro a ha b hb hab
    obtain rfl := mem_singleton.mp hb
    exact hnew (hab ▸ ha)
  · rw [order_add, forall_mem_append]
    exact ⟨h.reachable, by simpa using hreg⟩
  · rw [forall_mem_append]
    refine ⟨fun dst hdst => h.queued dst (mem_cons_of_mem reg hdst), ?_⟩
    intro dst hdst
    obtain ⟨⟨reloc, hreloc, hdst⟩, _⟩ := mem_unvisited.1 hdst
    exact .pointsTo hreg (hinv.dst reloc hreloc dst hdst)
  · rw [order_add]
    exact hcover top h.top
  · rw [order_add, forall_mem_append]
    refine ⟨fun src hsrc dst hdst => hcover dst (h.closed src hsrc dst hdst), ?_⟩
    simpa using hnewdst
  · rw [order_add]
    show ∀ reloc ∈ s.allRelocations ++ e.relocations, _
    rw [forall_mem_append]
    refine ⟨fun reloc hreloc => ?_, fun reloc hreloc => ?_⟩
    · exact ⟨mem_append_left _ (h.relocs reloc hreloc).1, (h.relocs reloc hreloc).2⟩
    · rw [hinv.src reloc hreloc]
      exact ⟨by simp, hinv.dst reloc hreloc⟩
  · exact isPowerOfTwo_max h.maxAlignment hpow
  · rw [order_add, forall_mem_append]
    exact ⟨fun reg' hreg' => (h.aligned reg' hreg').trans hmax.1, forall_mem_singleton.mpr hmax.2⟩
  · intro hlen
    obtain ⟨halign, hpoison⟩ := hpad hlen
    have hshort : s.payload.length < 2 ^ 32 := by
      simp only [Marshalled.add, length_append] at hlen
      omega
    exact (h.laid hshort).add hnew he hinv hlen halign hpoison

/-- Bounds the rounds to come: the queue and the arguments of the regions not visited yet. -/
def toCome (g : ArgGraph n) (s : Marshalled (Fin n)) (queue : List (Fin n)) : ℕ :=
  queue.length + ∑ reg with reg ∉ s.order, (g reg).nodes

/-- Each visit leaves less to come. -/
lemma toCome_add_lt (g : ArgGraph n) (hnew : reg ∉ s.order) (hinv : Expands (g reg) reg e [])
    (start poison : ℕ) (queue : List (Fin n)) :
    toCome g (s.add g reg e start poison) (queue ++ s.unvisited e.relocations) <
      toCome g s (reg :: queue) := by
  have hfound : (s.unvisited e.relocations).length ≤ (g reg).nodes := by
    have hnodes := hinv.nodes_le
    have hfilter := length_filter_le (!s.visited ·) (e.relocations.filterMap (·.dstRegion))
    have hmap := length_filterMap_le (·.dstRegion) e.relocations
    unfold unvisited
    omega
  have hset : Finset.univ.filter (fun r => r ∉ s.order ++ [reg]) =
      (Finset.univ.filter (fun r => r ∉ s.order)).erase reg := by
    ext r
    simp [and_comm]
  have hsum := Finset.add_sum_erase (Finset.univ.filter (fun r => r ∉ s.order))
    (fun r => (g r).nodes) (show reg ∈ _ by simpa using hnew)
  simp only [toCome, order_add, hset, length_append, length_cons]
  omega

/-- All reachable regions are collected. -/
lemma collect_spec (g : ArgGraph n) (h : ∀ reg, Reachable g top reg → (g reg).Supported) :
    ∃ s, drain (visitRegion g) (rounds g) [top] .init = .ok (s, []) ∧ Marshals g top s [] := by
  apply drain_total (p := toCome g) _ (Marshals.init g top)
  · have hsum : ∑ reg, (g reg).nodes = ((finRange n).map fun reg => (g reg).nodes).sum :=
      Fin.sum_univ_def _
    simp [toCome, rounds, order, init, hsum]
  · intro s reg queue hinv
    by_cases hvisited : reg ∈ s.order
    · refine ⟨s, [], ?_, ?_, ?_⟩
      · rw [visitRegion, if_pos (visited_iff.2 hvisited)]
      · rw [append_nil]
        exact hinv.skip hvisited
      · simp [toCome]
    · have hsupported := h reg (hinv.queued reg mem_cons_self)
      obtain ⟨e, start, poison, he, hexp, hok, hpad⟩ := visitRegion_spec g hvisited hsupported
      exact ⟨_, _, hok, hinv.add hvisited he hexp hpad, toCome_add_lt g hvisited hexp _ _ queue⟩

/-! ## Reading the blob back -/

/-- A relocation as it stands in the table. -/
def Relocation.entry [DecidableEq ρ] (regToID : List (ρ × ℕ)) (reloc : Relocation ρ) :
    RelocationEntry :=
  { srcID := regionID regToID reloc.srcRegion
    offset := reloc.offset
    dstID := destinationID regToID reloc.dstRegion }

@[simp] lemma length_writeUInt32 (v : UInt32) : (writeUInt32 v).length = 4 := length_toLE 4 _

lemma parses_readUInt32 (v : UInt32) : Parses readUInt32 () (writeUInt32 v) v () := by
  apply parses_token
  intro rest
  rw [writeUInt32, readLE_toLE_append v.toNat_lt]
  simp

lemma parses_readRegion (region : Region) :
    Parses readRegion () (kFuzzTestWriteRegion region) region () :=
  (parses_readUInt32 region.offset).bind
    ((parses_readUInt32 region.size).bind_nil (parses_pure _ _))

lemma parses_readRelocation [DecidableEq ρ] (regToID : List (ρ × ℕ)) (reloc : Relocation ρ) :
    Parses readRelocation () (kFuzzTestWriteReloc regToID reloc) (reloc.entry regToID) () := by
  exact (parses_readUInt32 _).bind ((parses_readUInt32 _).bind
    ((parses_readUInt32 _).bind_nil (parses_pure _ _)))

lemma parses_readBytes (bytes : List UInt8) :
    Parses (readBytes bytes.length) () bytes bytes () := by
  apply parses_token
  simp

lemma parses_times_readUInt32 {δ γ : Type} {m : BlobReader α} {encode : δ → List UInt8}
    {value : δ → α} {l : List δ} (hl : l.length < 2 ^ 32)
    (hm : ∀ x, Parses m () (encode x) (value x) ()) {f : List α → BlobReader γ} {bytes : List UInt8}
    {c : γ} (hf : Parses (f (l.map value)) () bytes c ()) :
    Parses (times m l.length.toUInt32.toNat >>= f) () (l.flatMap encode ++ bytes) c () := by
  have hlen : l.length.toUInt32.toNat = l.length := UInt32.toNat_ofNat_of_lt' hl
  rw [hlen]
  exact (parses_times (fun _ _ => ()) (fun _ x _ => hm x) ()).bind hf

/-- The tables are read back. -/
lemma parses_readTables [DecidableEq ρ] {regions : List Region} {regToID : List (ρ × ℕ)}
    {relocations : List (Relocation ρ)} {paddingBytes : UInt64} (hregions : regions.length < 2 ^ 32)
    (hrelocs : relocations.length < 2 ^ 32) (hpadding : paddingBytes.toNat < 2 ^ 32) :
    Parses readTables ()
      (kFuzzTestWritePrefix ++ kFuzzTestWriteRegionArray regions ++
        kFuzzTestWriteRelocTable regToID relocations paddingBytes)
      (regions, relocations.map (Relocation.entry regToID), List.replicate paddingBytes.toNat 0)
      () := by
  have hbytes : paddingBytes.toUInt32.toNat = (replicate paddingBytes.toNat (0 : UInt8)).length := by
    rw [length_replicate, UInt64.toNat_toUInt32, Nat.mod_eq_of_lt hpadding]
  apply (parses_readUInt32 kFuzzTestMagic).bind
  apply (parses_readUInt32 kFuzzTestVersion).bind
  apply (parses_readUInt32 _).bind
  apply parses_times_readUInt32 hregions parses_readRegion
  rw [map_id']
  apply (parses_readUInt32 _).bind
  apply (parses_readUInt32 _).bind
  apply parses_times_readUInt32 hrelocs (parses_readRelocation regToID)
  rw [hbytes]
  exact (parses_readBytes _).bind_nil (parses_pure _ _)

/-! ## The whole blob -/

/-- Two regions have no byte in common. -/
def Region.Disjoint (r r' : Region) : Prop :=
  r.stop ≤ r'.offset.toNat ∨ r'.stop ≤ r.offset.toNat

/-- Where the payload starts in the blob. -/
def Blob.payloadStart (b : Blob) : ℕ :=
  metadataLen b.regions.length b.relocations.length + b.padding.length

/-- What the kernel relies on, for regions with the given alignments. -/
structure Blob.WellFormed (b : Blob) (alignments : List UInt64) : Prop where
  disjoint : b.regions.Pairwise Region.Disjoint
  inside : ∀ r ∈ b.regions, r.stop ≤ b.payload.length
  aligned : List.Forall₂ (fun a r => a.toNat ∣ b.payloadStart + r.offset.toNat) alignments b.regions
  poisoned : ∀ r ∈ b.regions, ∀ i < kFuzzTestPoisonSize.toNat, b.payload[r.stop + i]? = some 0
  sources : ∀ e ∈ b.relocations, ∃ r, b.regions[e.srcID.toNat]? = some r ∧
    e.offset.toNat + 8 ≤ r.size.toNat
  destinations : ∀ e ∈ b.relocations,
    e.dstID = kFuzzTestRegionIDNull ∨ e.dstID.toNat < b.regions.length

lemma length_flatMap_of_forall {f : α → List UInt8} {k : ℕ} (h : ∀ a, (f a).length = k) (l : List α) :
    (l.flatMap f).length = k * l.length := by
  rw [length_flatMap, map_congr_left fun a _ => h a, map_const', sum_replicate,
    smul_eq_mul, Nat.mul_comm]

/-- How long the tables are. -/
lemma length_tables [DecidableEq ρ] (regions : List Region) (regToID : List (ρ × ℕ))
    (relocations : List (Relocation ρ)) (paddingBytes : UInt64) :
    (kFuzzTestWritePrefix ++ kFuzzTestWriteRegionArray regions ++
        kFuzzTestWriteRelocTable regToID relocations paddingBytes).length =
      metadataLen regions.length relocations.length + paddingBytes.toNat := by
  have hregions : (regions.flatMap kFuzzTestWriteRegion).length = 8 * regions.length :=
    length_flatMap_of_forall (fun r => by simp [kFuzzTestWriteRegion]) regions
  have hrelocs : (relocations.flatMap (kFuzzTestWriteReloc regToID)).length =
      12 * relocations.length :=
    length_flatMap_of_forall (fun r => by simp [kFuzzTestWriteReloc]) relocations
  have hhead : kFuzzTestWritePrefix.length = 8 := length_toLE 8 _
  simp only [length_append, kFuzzTestWriteRegionArray, kFuzzTestWriteRelocTable,
    length_writeUInt32, length_replicate, hregions, hrelocs, hhead, metadataLen,
    kFuzzTestRegionArraySize, kFuzzTestRelocTableSize]
  omega

/-- The blob that the collected regions make, with `padding` bytes before the payload. -/
def Marshalled.blob [DecidableEq ρ] (s : Marshalled ρ) (padding : ℕ) : Blob :=
  { regions := s.regions
    relocations := s.allRelocations.map (Relocation.entry s.visitedRegions)
    padding := List.replicate padding 0
    payload := s.payload }

lemma regionID_of_lookup {regToID : List (Fin n × ℕ)} {i : ℕ} (h : regToID.lookup reg = some i)
    (hi : i < 2 ^ 32) : (regionID regToID reg).toNat = i := by
  rw [regionID, h]
  exact UInt32.toNat_ofNat_of_lt' hi

lemma Marshals.exists_lookup (h : Marshals g top s queue) (hreg : reg ∈ s.order) :
    ∃ i, s.visitedRegions.lookup reg = some i ∧ i < s.regions.length := by
  obtain ⟨i, hi⟩ := Option.isSome_iff_exists.mp (visited_iff.2 hreg)
  obtain ⟨l₁, l₂, hsplit, _⟩ := lookup_eq_some_iff.mp hi
  have hmem : (reg, i) ∈ s.visitedRegions := by
    rw [hsplit]
    exact mem_append_right _ mem_cons_self
  exact ⟨i, hi, h.ids _ hmem⟩

/-- The collected regions make a well-formed blob. -/
lemma Marshals.wellFormed (h : Marshals g top s []) (hpayload : s.payload.length < 2 ^ 32)
    (hregions : s.regions.length < 2 ^ 32) {padding : ℕ} (hstart : s.maxAlignment.toNat ∣
      metadataLen s.regions.length s.allRelocations.length + padding) :
    (s.blob padding).WellFormed (s.order.map fun reg => regionAlignment (g reg)) := by
  have hlaid := h.laid hpayload
  refine ⟨?_, ?_, ?_, ?_, ?_, ?_⟩
  · exact hlaid.ordered.imp fun hle => .inl hle
  · intro r hr
    obtain ⟨reg, -, hplaced⟩ := exists_mem_of_forall₂ hlaid.placed hr
    exact le_trans (Nat.le_add_right _ 8) hplaced.stop_le
  · obtain ⟨hlen, hzip⟩ := forall₂_iff_zip.mp hlaid.placed
    rw [forall₂_map_left_iff]
    refine forall₂_iff_zip.mpr ⟨hlen, fun {reg r} hmem => ?_⟩
    have hsum : (s.blob padding).payloadStart =
        metadataLen s.regions.length s.allRelocations.length + padding := by
      simp [Blob.payloadStart, blob]
    rw [hsum]
    exact dvd_add ((h.aligned reg (of_mem_zip hmem).1).trans hstart) (hzip hmem).aligned
  · intro r hr i hi
    obtain ⟨reg, -, hplaced⟩ := exists_mem_of_forall₂ hlaid.placed hr
    exact hplaced.poisoned hi
  · show ∀ e ∈ s.allRelocations.map _, _
    rw [forall_mem_map]
    intro reloc hreloc
    obtain ⟨i, r, hlookup, hr, hslot⟩ := hlaid.slots reloc hreloc
    have hi := (List.getElem?_eq_some_iff.mp hr).1
    refine ⟨r, ?_, hslot⟩
    show s.regions[(regionID s.visitedRegions reloc.srcRegion).toNat]? = some r
    rw [regionID_of_lookup hlookup (hi.trans hregions), hr]
  · show ∀ e ∈ s.allRelocations.map _, _
    rw [forall_mem_map]
    intro reloc hreloc
    cases hdst : reloc.dstRegion with
    | none =>
      left
      rw [Relocation.entry, hdst]
      rfl
    | some dst =>
      -- the pointee has been queued with its source, so it is visited by now
      right
      obtain ⟨hsrc, hpoints⟩ := h.relocs reloc hreloc
      have hvisited : dst ∈ s.order := by simpa using h.closed _ hsrc dst (hpoints dst hdst)
      obtain ⟨i, hlookup, hi⟩ := h.exists_lookup hvisited
      rw [Relocation.entry, hdst]
      show (regionID s.visitedRegions dst).toNat < s.regions.length
      rw [regionID_of_lookup hlookup (hi.trans hregions)]
      exact hi

lemma Marshals.mem_order_iff (h : Marshals g top s []) (reg : Fin n) :
    reg ∈ s.order ↔ Reachable g top reg := by
  refine ⟨h.reachable reg, fun hreg => ?_⟩
  induction hreg with
  | top => simpa using h.top
  | pointsTo _ hdst ih => simpa using h.closed _ ih _ hdst

/-- The collected regions are written, and the reader gets them back. -/
lemma Marshalled.write_spec [DecidableEq ρ] (s : Marshalled ρ)
    (hmax : isPowerOfTwo s.maxAlignment = true) :
    ∃ bytes, s.write = .ok bytes ∧ (bytes.length < 2 ^ 32 → ∃ padding,
      readBlob bytes = .ok (s.blob padding) ∧
      bytes.drop (s.blob padding).payloadStart = s.payload ∧
      s.maxAlignment.toNat ∣ metadataLen s.regions.length s.allRelocations.length + padding ∧
      s.payload.length < 2 ^ 32 ∧ s.regions.length < 2 ^ 32) := by
  obtain ⟨k, hk⟩ := isPowerOfTwo_iff.1 hmax
  let len := metadataLen s.regions.length s.allRelocations.length
  obtain ⟨r, hr, hround⟩ := roundUpPowerOfTwo_spec hk (len.toUInt64 + kFuzzTestPoisonSize)
  let tables := kFuzzTestWritePrefix ++ kFuzzTestWriteRegionArray s.regions ++
    kFuzzTestWriteRelocTable s.visitedRegions s.allRelocations (r - len.toUInt64)
  have htables : tables.length = len + (r - len.toUInt64).toNat := length_tables _ _ _ _
  refine ⟨tables ++ s.payload, ?_, fun hlen => ⟨(r - len.toUInt64).toNat, ?_, ?_, ?_, ?_, ?_⟩⟩
  · rw [write, hr]
    rfl
  all_goals
    rw [length_append, htables] at hlen
    have hmeta : len = 0x8 + (4 + 8 * s.regions.length) + (8 + 12 * s.allRelocations.length) := rfl
  · have hparse := @parses_readTables _ _ s.regions s.visitedRegions s.allRelocations
      (r - len.toUInt64) (by omega) (by omega) (by omega) s.payload
    rw [readBlob, hparse]
    rfl
  · have hsum : (s.blob (r - len.toUInt64).toNat).payloadStart = tables.length := by
      simp [Blob.payloadStart, blob, htables, len]
    rw [hsum, drop_left]
  · -- the padding fills up to the rounded length
    have hlen64 : len.toUInt64.toNat = len := toNat_toUInt64 (by omega)
    have hpoison : (len.toUInt64 + kFuzzTestPoisonSize).toNat = len + 8 := by
      have hsize : kFuzzTestPoisonSize.toNat = 8 := rfl
      rw [UInt64.toNat_add, hlen64, hsize, Nat.mod_eq_of_lt (by omega)]
    have hvalue := hround (by omega)
    rw [hpoison] at hvalue
    have hpos : 0 < s.maxAlignment.toNat := by
      rw [hk]
      exact Nat.two_pow_pos k
    have hle := le_alignUp hpos (len + 8)
    have hsub : len.toUInt64 ≤ r := by
      rw [UInt64.le_iff_toNat_le, hlen64]
      omega
    have htotal : len + (r - len.toUInt64).toNat = r.toNat := by
      rw [UInt64.toNat_sub_of_le _ _ hsub, hlen64]
      omega
    show s.maxAlignment.toNat ∣ len + (r - len.toUInt64).toNat
    rw [htotal, hvalue]
    exact dvd_alignUp _ _
  · omega
  · omega

/-- An argument whose regions are made of pointers, groups, data and constants of 1, 2, 4 or 8
bytes is flattened, however its pointers are shared or lead back. If the blob stays below 4 GiB
it reads back as a well-formed one that lists exactly the regions of the argument. -/
theorem marshallKFuzztestArg_wellFormed (g : ArgGraph n) (top : Fin n)
    (h : ∀ reg, Reachable g top reg → (g reg).Supported) :
    ∃ bytes, marshallKFuzztestArg g (some top) = .ok bytes ∧ (bytes.length < 2 ^ 32 →
      ∃ (blob : Blob) (order : List (Fin n)), readBlob bytes = .ok blob ∧
        bytes.drop blob.payloadStart = blob.payload ∧
        order.Nodup ∧ (∀ reg, reg ∈ order ↔ Reachable g top reg) ∧
        blob.WellFormed (order.map fun reg => regionAlignment (g reg))) := by
  obtain ⟨s, hcollect, hinv⟩ := collect_spec g h
  obtain ⟨bytes, hwrite, hread⟩ := s.write_spec hinv.maxAlignment
  refine ⟨bytes, ?_, fun hlen => ?_⟩
  · simp only [marshallKFuzztestArg, hcollect, bind, Except.bind]
    exact hwrite
  · obtain ⟨padding, hblob, hdrop, hstart, hpayload, hregions⟩ := hread hlen
    exact ⟨s.blob padding, s.order, hblob, hdrop, hinv.nodup, hinv.mem_order_iff,
      hinv.wellFormed hpayload hregions hstart⟩

def wordAlign : TypeAlign := ⟨8, .inr rfl⟩

def int32Type : ScalarType :=
  .int { typeName := "int32", typeSize := 4, argFormat := .formatNative, bitfieldOff := 0
         bitfieldLen := 0, bitfieldUnit := 0, bitfieldUnitOff := 0 }

/-- Two nodes that point to each other; the first has a string that is not terminated. -/
def twoNodes : ArgGraph 2
  | 0 => .group wordAlign
      [.pointer wordAlign (some 1), .data ⟨1, .inr rfl⟩ ⟨⟨"string", 0⟩, .bufferString⟩ [0x61],
        .const ⟨4, .inr rfl⟩ int32Type 7]
  | 1 => .group wordAlign [.pointer wordAlign (some 0), .pointer wordAlign none]

lemma twoNodes_supported (reg : Fin 2) : (twoNodes reg).Supported := by
  match reg with
  | 0 =>
    refine .group fun arg harg => ?_
    simp only [mem_cons, not_mem_nil, or_false] at harg
    obtain rfl | rfl | rfl := harg
    · exact .pointer
    · exact .data
    · exact .const (by decide)
  | 1 =>
    refine .group fun arg harg => ?_
    simp only [mem_cons, not_mem_nil, or_false] at harg
    obtain rfl | rfl := harg
    · exact .pointer
    · exact .pointer

theorem marshallKFuzztestArg_twoNodes :
    ∃ bytes blob alignments, marshallKFuzztestArg twoNodes (some 0) = .ok bytes ∧
      bytes.length = 128 ∧ readBlob bytes = .ok blob ∧ blob.WellFormed alignments := by
  obtain ⟨bytes, hok, hread⟩ :=
    marshallKFuzztestArg_wellFormed twoNodes 0 fun reg _ => twoNodes_supported reg
  have hlen : (marshallKFuzztestArg twoNodes (some 0)).map List.length = .ok 128 := by
    decide +kernel
  rw [hok] at hlen
  have hbytes : bytes.length = 128 := Except.ok.inj hlen
  obtain ⟨blob, order, hblob, _, _, _, hwf⟩ := hread (by omega)
  exact ⟨bytes, blob, _, hok, hbytes, hblob, hwf⟩

/-- A struct with a union in it. -/
def unionField : ArgGraph 1 := fun _ =>
  .group wordAlign [.union wordAlign ⟨⟨"sockaddr", 16⟩, false⟩]

/-- A constant of three bytes. -/
def threeBytes : ArgGraph 1 := fun _ =>
  .const ⟨1, .inr rfl⟩ (.int { typeName := "int24", typeSize := 3, argFormat := .formatNative
                               bitfieldOff := 0, bitfieldLen := 0, bitfieldUnit := 0
                               bitfieldUnitOff := 0 }) 7

/-- Unions, and constants of a size that is not one of a machine word, are not serialized. -/
theorem marshallKFuzztestArg_unionField :
    marshallKFuzztestArg unionField (some 0) = .error (.unsupportedType "sockaddr") ∧
      marshallKFuzztestArg threeBytes (some 0) = .error (.unsupportedConstantSize 3) := by
  decide +kernel

end KConfuzz.KFuzzTest
