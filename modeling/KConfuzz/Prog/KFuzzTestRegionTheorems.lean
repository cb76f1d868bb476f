import KConfuzz.Prog.KFuzzTest

/-!
# Writing one region of a KFuzzTest argument

What padding does, and that an argument of pointers, groups, data and constants of 1, 2, 4 or 8
bytes is written as a region without a panic. The loop is a work list; `Expands` is its
invariant. The slots of the pointers are inside the region as long as the region stays below
4 GiB, where the 32-bit offsets are exact.
-/

namespace KConfuzz.KFuzzTest

open Lib.LittleEndian Lib.Rounding Lib.WorkList List

variable {ρ : Type} {n : ℕ} {s s' : Expansion ρ} {found : List (RegionArg ρ)} {root : RegionArg ρ}

/-! ## Alignment -/

lemma isPowerOfTwo_iff {a : UInt64} : isPowerOfTwo a = true ↔ ∃ k, a.toNat = 2 ^ k := by
  have hnat : (∃ k, a.toNat = 2 ^ k) ↔ a.toNat ≠ 0 ∧ a.toNat &&& (a.toNat - 1) = 0 :=
    Nat.ne_zero_and_sub_one_eq_zero_iff_isPowerOfTwo.symm
  rw [hnat, isPowerOfTwo, Bool.and_eq_true, decide_eq_true_eq, beq_iff_eq]
  have hpos : a > 0 ↔ a.toNat ≠ 0 := by
    rw [gt_iff_lt, UInt64.lt_iff_toNat_lt, UInt64.toNat_zero]
    omega
  rw [hpos]
  apply and_congr_right
  intro hne
  have hone : (1 : UInt64) ≤ a := by
    rw [UInt64.le_iff_toNat_le, UInt64.toNat_one]
    omega
  rw [← UInt64.toNat_inj, UInt64.toNat_and, UInt64.toNat_sub_of_le _ _ hone, UInt64.toNat_one,
    UInt64.toNat_zero]

lemma roundUpPowerOfTwo_spec {a : UInt64} {k : ℕ} (ha : a.toNat = 2 ^ k) (x : UInt64) :
    ∃ r, roundUpPowerOfTwo x a = .ok r ∧
      (x.toNat < 2 ^ 63 → r.toNat = alignUp a.toNat x.toNat) := by
  refine ⟨(x + a - 1) &&& ~~~(a - 1), ?_, ?_⟩
  · rw [roundUpPowerOfTwo, if_pos (isPowerOfTwo_iff.2 ⟨k, ha⟩)]
  · intro hx
    have hk : 2 ^ k ≤ 2 ^ 63 := by
      have hlt := a.toNat_lt
      rw [ha] at hlt
      exact Nat.pow_le_pow_right (by omega)
        (Nat.lt_succ_iff.mp ((Nat.pow_lt_pow_iff_right (by omega)).mp hlt))
    exact toNat_add_sub_one_and_not_mask ha (by omega)

lemma toNat_toUInt64 {m : ℕ} (h : m < 2 ^ 64) : m.toUInt64.toNat = m := UInt64.toNat_ofNat_of_lt' h

/-- What padding does: it appends zeros, at least as many as asked for, up to a multiple of the
alignment. -/
lemma padWithAlignment_spec {a : UInt64} (ha : a = 0 ∨ isPowerOfTwo a = true) (b : List UInt8)
    (minPadding : UInt64) :
    ∃ m, padWithAlignment b a minPadding = .ok (b ++ List.replicate m 0) ∧
      (b.length + minPadding.toNat < 2 ^ 63 →
        minPadding.toNat ≤ m ∧ (a ≠ 0 → a.toNat ∣ b.length + m)) := by
  -- with `newSize` at hand, only the difference to the old length is left to compute
  have hgrow : ∀ newSize : UInt64, b.length + minPadding.toNat < 2 ^ 63 →
      b.length + minPadding.toNat ≤ newSize.toNat →
      b.length + (newSize - b.length.toUInt64).toNat = newSize.toNat := by
    intro newSize hlen hle
    have hb : b.length.toUInt64.toNat = b.length := toNat_toUInt64 (by omega)
    have hsub : b.length.toUInt64 ≤ newSize := by
      rw [UInt64.le_iff_toNat_le, hb]
      omega
    rw [UInt64.toNat_sub_of_le _ _ hsub, hb]
    omega
  have hsum : b.length + minPadding.toNat < 2 ^ 63 →
      (b.length.toUInt64 + minPadding).toNat = b.length + minPadding.toNat := by
    intro hlen
    have hb : b.length.toUInt64.toNat = b.length := toNat_toUInt64 (by omega)
    rw [UInt64.toNat_add, hb, Nat.mod_eq_of_lt (by omega)]
  by_cases hzero : a = 0
  · refine ⟨(b.length.toUInt64 + minPadding - b.length.toUInt64).toNat, ?_, ?_⟩
    · simp only [padWithAlignment, hzero, if_true]
      rfl
    · intro hlen
      have hnew := hgrow (b.length.toUInt64 + minPadding) hlen (hsum hlen).ge
      exact ⟨by omega, fun hne => absurd hzero hne⟩
  · obtain ⟨k, hk⟩ := isPowerOfTwo_iff.1 (ha.resolve_left hzero)
    obtain ⟨r, hr, hround⟩ := roundUpPowerOfTwo_spec hk (b.length.toUInt64 + minPadding)
    refine ⟨(r - b.length.toUInt64).toNat, ?_, ?_⟩
    · simp only [padWithAlignment, hzero, if_false, hr]
      rfl
    · intro hlen
      have hvalue : r.toNat = alignUp a.toNat (b.length + minPadding.toNat) := by
        rw [hround (by rw [hsum hlen]; exact hlen), hsum hlen]
      have hpos : 0 < a.toNat := by
        rw [hk]
        exact Nat.two_pow_pos k
      have hle : b.length + minPadding.toNat ≤ r.toNat := by
        rw [hvalue]
        exact le_alignUp hpos _
      have hnew := hgrow r hlen hle
      refine ⟨by omega, fun _ => ?_⟩
      rw [hnew, hvalue]
      exact dvd_alignUp _ _

lemma RegionArg.alignment_sane (arg : RegionArg ρ) :
    arg.alignment = 0 ∨ isPowerOfTwo arg.alignment = true := by
  cases arg with
  | pointer align | group align | data align | const align | union align | result align =>
    exact align.sane

lemma max_eq_or_of_le (a b : UInt64) : (max a b = b ∧ a ≤ b) ∨ (max a b = a ∧ b ≤ a) := by
  by_cases h : a ≤ b
  · exact .inl ⟨if_pos h, h⟩
  · exact .inr ⟨if_neg h, UInt64.le_of_lt (UInt64.not_le.mp h)⟩

section

variable {a b : UInt64} (ha : isPowerOfTwo a = true) (hb : isPowerOfTwo b = true)

include ha hb

lemma isPowerOfTwo_max : isPowerOfTwo (max a b) = true := by
  obtain ⟨h, _⟩ | ⟨h, _⟩ := max_eq_or_of_le a b
  · rw [h]
    exact hb
  · rw [h]
    exact ha

lemma toNat_dvd_of_le (h : a ≤ b) : a.toNat ∣ b.toNat := by
  obtain ⟨i, hi⟩ := isPowerOfTwo_iff.1 ha
  obtain ⟨j, hj⟩ := isPowerOfTwo_iff.1 hb
  rw [UInt64.le_iff_toNat_le, hi, hj] at h
  rw [hi, hj]
  exact Nat.pow_dvd_pow 2 ((Nat.pow_le_pow_iff_right (by omega)).mp h)

lemma toNat_dvd_max : a.toNat ∣ (max a b).toNat ∧ b.toNat ∣ (max a b).toNat := by
  obtain ⟨h, hle⟩ | ⟨h, hle⟩ := max_eq_or_of_le a b
  · rw [h]
    exact ⟨toNat_dvd_of_le ha hb hle, dvd_rfl⟩
  · rw [h]
    exact ⟨dvd_rfl, toNat_dvd_of_le hb ha hle⟩

end

lemma isPowerOfTwo_regionAlignment (arg : RegionArg ρ) :
    isPowerOfTwo (regionAlignment arg) = true := by
  unfold regionAlignment
  obtain hzero | hpow := arg.alignment_sane
  · rw [hzero]
    decide
  · exact isPowerOfTwo_max (by decide) hpow

/-! ## Expanding a region -/

/-- The arguments that can be flattened. -/
inductive RegionArg.Supported : RegionArg ρ → Prop
  | pointer {align : TypeAlign} {res : Option ρ} : Supported (.pointer align res)
  | group {align : TypeAlign} {inner : List (RegionArg ρ)} (h : ∀ arg ∈ inner, Supported arg) :
    Supported (.group align inner)
  | data {align : TypeAlign} {typ : BufferType} {bytes : List UInt8} :
    Supported (.data align typ bytes)
  | const {align : TypeAlign} {typ : ScalarType} {val : UInt64}
    (h : typ.common.typeSize ∈ [(1 : UInt64), 2, 4, 8]) : Supported (.const align typ val)

/-- A pointer of the region leads to `reg`. -/
inductive RegionArg.PointsTo : RegionArg ρ → ρ → Prop
  | pointer {align : TypeAlign} {reg : ρ} : PointsTo (.pointer align (some reg)) reg
  | group {align : TypeAlign} {inner : List (RegionArg ρ)} {arg : RegionArg ρ} {reg : ρ}
    (hmem : arg ∈ inner) (h : PointsTo arg reg) : PointsTo (.group align inner) reg

lemma nodesAll_append (l₁ l₂ : List (RegionArg ρ)) :
    nodesAll (l₁ ++ l₂) = nodesAll l₁ + nodesAll l₂ := by
  induction l₁ with
  | nil => simp [nodesAll]
  | cons arg l₁ ih =>
    rw [cons_append, nodesAll, nodesAll, ih, Nat.add_assoc]

lemma writeConst_of_mem {size : UInt64} (h : size ∈ [(1 : UInt64), 2, 4, 8]) (val : UInt64) :
    writeConst size val = .ok (toLE size.toNat val.toNat) := by
  simp only [mem_cons, not_mem_nil, or_false] at h
  rw [writeConst, if_pos h]

/-- What a round of the expansion does with a supported argument: after some padding a pointer
leaves a slot and its relocation, a group its fields, and anything else its bytes. -/
inductive ExpandStep (reg : ρ) (s : Expansion ρ) :
    RegionArg ρ → Expansion ρ → List (RegionArg ρ) → Prop
  | pointer {align : TypeAlign} {res : Option ρ} (padded slot : List UInt8)
    (hpad : s.encoded <+: padded) (hslot : slot.length = 8) :
    ExpandStep reg s (.pointer align res)
      ⟨padded ++ slot, s.relocations ++ [⟨padded.length.toUInt32, reg, res⟩]⟩ []
  | group {align : TypeAlign} {inner : List (RegionArg ρ)} (padded : List UInt8)
    (hpad : s.encoded <+: padded) :
    ExpandStep reg s (.group align inner) ⟨padded, s.relocations⟩ inner
  | leaf {arg : RegionArg ρ} (written : List UInt8) (hpad : s.encoded <+: written)
    (hnodes : arg.nodes = 1) (hno : ∀ dst, ¬ arg.PointsTo dst) :
    ExpandStep reg s arg ⟨written, s.relocations⟩ []

/-- One round for a supported argument. -/
lemma expandArg_spec (reg : ρ) (s : Expansion ρ) {arg : RegionArg ρ} (h : arg.Supported) :
    ∃ s' found, expandArg reg s arg = .ok (s', found) ∧ ExpandStep reg s arg s' found := by
  obtain ⟨m, hm, _⟩ := padWithAlignment_spec arg.alignment_sane s.encoded 0
  have hpad : s.encoded <+: s.encoded ++ replicate m 0 := prefix_append _ _
  unfold expandArg
  rw [hm]
  cases h with
  | pointer => exact ⟨_, _, rfl, .pointer _ _ hpad (length_toLE 8 _)⟩
  | group => exact ⟨_, _, rfl, .group _ hpad⟩
  | data =>
    refine ⟨_, _, rfl, .leaf _ (hpad.trans (prefix_append _ _)) rfl ?_⟩
    intro dst hdst
    cases hdst
  | @const align typ val hsize =>
    let bytes := toLE typ.common.typeSize.toNat (typ.value val).1.toNat
    refine ⟨_, _, ?_, .leaf _ (hpad.trans (prefix_append _ bytes)) rfl ?_⟩
    · simp only [bind, Except.bind, writeConst_of_mem hsize]
      rfl
    · intro dst hdst
      cases hdst

/-- The invariant of the loop that writes the region `reg`, whose argument is `root`. -/
structure Expands (root : RegionArg ρ) (reg : ρ) (s : Expansion ρ) (queue : List (RegionArg ρ)) :
    Prop where
  supported : ∀ arg ∈ queue, arg.Supported
  within : ∀ arg ∈ queue, ∀ dst, arg.PointsTo dst → root.PointsTo dst
  nodes_le : s.relocations.length + nodesAll queue ≤ root.nodes
  src : ∀ reloc ∈ s.relocations, reloc.srcRegion = reg
  dst : ∀ reloc ∈ s.relocations, ∀ dst, reloc.dstRegion = some dst → root.PointsTo dst
  covers : ∀ dst, root.PointsTo dst →
    (∃ arg ∈ queue, arg.PointsTo dst) ∨ ∃ reloc ∈ s.relocations, reloc.dstRegion = some dst
  slot : s.encoded.length < 2 ^ 32 →
    ∀ reloc ∈ s.relocations, reloc.offset.toNat + 8 ≤ s.encoded.length

lemma Expands.init (reg : ρ) (h : root.Supported) : Expands root reg ⟨[], []⟩ [root] where
  supported := by simpa using h
  within := by simp
  nodes_le := by simp [nodesAll]
  src := by simp
  dst := by simp
  covers := fun dst hdst => .inl ⟨root, by simp, hdst⟩
  slot := by simp

/-- A round keeps what was expanded. -/
lemma Expands.step {reg : ρ} {arg : RegionArg ρ} {queue : List (RegionArg ρ)}
    (h : Expands root reg s (arg :: queue)) (hstep : ExpandStep reg s arg s' found) :
    Expands root reg s' (queue ++ found) := by
  have hsupported := forall_mem_cons.mp h.supported
  have hwithin := forall_mem_cons.mp h.within
  have hnodes := h.nodes_le
  rw [nodesAll] at hnodes
  have hcovers := h.covers
  simp only [exists_mem_cons_iff, or_assoc] at hcovers
  have hslots : ∀ {padded : List UInt8}, s.encoded <+: padded → padded.length < 2 ^ 32 →
      ∀ reloc ∈ s.relocations, reloc.offset.toNat + 8 ≤ padded.length := by
    intro padded hpad hlen reloc hreloc
    exact (h.slot (hpad.length_le.trans_lt hlen) reloc hreloc).trans hpad.length_le
  cases hstep with
  | @pointer align res padded slot hpad hslot =>
    have hone : (RegionArg.pointer align res).nodes = 1 := rfl
    refine ⟨?_, ?_, ?_, ?_, ?_, ?_, ?_⟩
    · simpa using hsupported.2
    · simpa using hwithin.2
    · simp only [length_append, length_singleton, append_nil]
      omega
    · simp only [forall_mem_append, forall_mem_singleton]
      exact ⟨h.src, trivial⟩
    · simp only [forall_mem_append, forall_mem_singleton]
      refine ⟨h.dst, fun dst hdst => hwithin.1 dst ?_⟩
      subst hdst
      exact .pointer
    · -- what the pointer leads to is now in its relocation
      intro dst hdst
      obtain hpoints | ⟨arg', hmem, hpoints⟩ | ⟨reloc, hreloc, hdst'⟩ := hcovers dst hdst
      · cases hpoints
        exact .inr ⟨_, mem_append_right _ mem_cons_self, rfl⟩
      · exact .inl ⟨arg', by simpa using hmem, hpoints⟩
      · exact .inr ⟨reloc, mem_append_left _ hreloc, hdst'⟩
    · intro hlen
      simp only [length_append, hslot] at hlen ⊢
      simp only [forall_mem_append, forall_mem_singleton]
      constructor
      · intro reloc hreloc
        have hold := hslots hpad (by omega) reloc hreloc
        omega
      · have hoff : padded.length.toUInt32.toNat = padded.length :=
          UInt32.toNat_ofNat_of_lt' (show padded.length < 2 ^ 32 by omega)
        rw [hoff]
  | @group align _ padded hpad =>
    have hgroup : (RegionArg.group align found).nodes = 1 + nodesAll found := rfl
    refine ⟨?_, ?_, ?_, h.src, h.dst, ?_, ?_⟩
    · rw [forall_mem_append]
      refine ⟨hsupported.2, ?_⟩
      cases hsupported.1 with
      | group hinner => exact hinner
    · rw [forall_mem_append]
      exact ⟨hwithin.2, fun arg harg dst hdst => hwithin.1 dst (.group harg hdst)⟩
    · rw [nodesAll_append]
      show s.relocations.length + (nodesAll queue + nodesAll found) ≤ root.nodes
      omega
    · intro dst hdst
      obtain hpoints | ⟨arg', hmem, hpoints⟩ | hreloc := hcovers dst hdst
      · cases hpoints with
        | group hmem hpoints => exact .inl ⟨_, mem_append_right _ hmem, hpoints⟩
      · exact .inl ⟨arg', mem_append_left _ hmem, hpoints⟩
      · exact .inr hreloc
    · exact hslots hpad
  | leaf written hpad hone hno =>
    rw [append_nil]
    have hless : s.relocations.length + nodesAll queue ≤ root.nodes := by omega
    refine ⟨hsupported.2, hwithin.2, hless, h.src, h.dst, ?_, ?_⟩
    · intro dst hdst
      exact (hcovers dst hdst).resolve_left (hno dst)
    · exact hslots hpad

lemma ExpandStep.nodesAll_lt {reg : ρ} {arg : RegionArg ρ} (hstep : ExpandStep reg s arg s' found)
    (queue : List (RegionArg ρ)) : nodesAll (queue ++ found) < nodesAll (arg :: queue) := by
  rw [nodesAll_append, nodesAll]
  cases hstep with
  | pointer => simp [nodesAll, RegionArg.nodes]
  | group => simp [RegionArg.nodes]; omega
  | leaf _ _ hone => simp [nodesAll, hone]

lemma kFuzzTestExpandRegion_spec (g : ArgGraph n) {reg : Fin n} (h : (g reg).Supported) :
    ∃ s, kFuzzTestExpandRegion g reg = .ok s ∧ Expands (g reg) reg s [] := by
  have hround : ∀ s arg queue, Expands (g reg) reg s (arg :: queue) →
      ∃ s' found, expandArg reg s arg = .ok (s', found) ∧
        Expands (g reg) reg s' (queue ++ found) ∧
        nodesAll (queue ++ found) < nodesAll (arg :: queue) := by
    intro s arg queue hinv
    obtain ⟨s', found, hok, hstep⟩ := expandArg_spec reg s (hinv.supported arg mem_cons_self)
    exact ⟨s', found, hok, hinv.step hstep, hstep.nodesAll_lt queue⟩
  have hfuel : nodesAll [g reg] ≤ (g reg).nodes := by simp [nodesAll]
  obtain ⟨s, hdrain, hinv⟩ := drain_total (p := fun _ => nodesAll) hround (Expands.init reg h) hfuel
  refine ⟨s, ?_, hinv⟩
  rw [kFuzzTestExpandRegion, hdrain]
  rfl

end KConfuzz.KFuzzTest
