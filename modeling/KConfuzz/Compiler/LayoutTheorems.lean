import KConfuzz.Compiler.Layout
import KConfuzz.Lib.ExceptFold
import Mathlib.Algebra.Order.BigOperators.Group.List
import Mathlib.Data.List.ModifyLast

/-!
# When a layout is sound

Positions are numbers of bits from the start of a part of a struct. The pass keeps its position
(`8 * byteOffset + bitOffset`) at the end of the last field, so the fields are disjoint, with two
exceptions: a bitfield of a packed struct that does not fit where it is gets the place of its unit
modulo the size of the unit, and a field whose alignment is not assigned yet makes the pass forget
the pending bits.
-/

namespace KConfuzz.Compiler

open Lib.ExceptFold Lib.Rounding List Compiler.Field
open UInt64 (toNat_zero le_iff_toNat_le toNat_sub_of_le toNat_add lt_iff_toNat_lt toNat_mod)

/-! ## Rounding -/

/-- The first byte that starts at or behind a bit. -/
def ceil8 (x : ℕ) : ℕ := (x + 7) / 8

lemma le_ceil8 (x : ℕ) : x ≤ 8 * ceil8 x ∧ 8 * ceil8 x ≤ x + 7 := by
  unfold ceil8
  omega

lemma toNat_mul_eight {x : UInt64} (h : x.toNat < 2 ^ 60) : (x * 8).toNat = 8 * x.toNat := by
  have h8 : (8 : UInt64).toNat = 8 := rfl
  rw [UInt64.toNat_mul, h8, Nat.mod_eq_of_lt (by omega), Nat.mul_comm]

variable {a : UInt64}

lemma toNat_pos_of_ne (h : a ≠ 0) : 0 < a.toNat := by
  refine Nat.pos_of_ne_zero fun h0 => h ?_
  rw [← UInt64.toNat_inj, h0, toNat_zero]

lemma rounddown_spec {k : ℕ} (ha : a.toNat = 2 ^ k) (v : UInt64) :
    ∃ r, rounddown v a = .ok r ∧ r.toNat = v.toNat / a.toNat * a.toNat := by
  refine ⟨_, if_neg (not_not_intro (and_sub_one_of_two_pow ha)), ?_⟩
  rw [toNat_and_not_mask ha, ha]

lemma roundup_spec {k : ℕ} (ha : a.toNat = 2 ^ k) {v : UInt64} (hv : v.toNat + a.toNat < 2 ^ 64) :
    ∃ r, roundup v a = .ok r ∧ r.toNat = alignUp a.toNat v.toNat := by
  refine ⟨_, if_neg (not_not_intro (and_sub_one_of_two_pow ha)), ?_⟩
  exact toNat_add_sub_one_and_not_mask ha hv

lemma roundup_zero (v : UInt64) : roundup v 0 = .ok 0 := by
  have hmask : (~~~(0 - 1) : UInt64) = 0 := by decide
  unfold roundup rounddown
  rw [if_neg (by decide), hmask, UInt64.and_zero]

lemma IsAlign.pos (ha : IsAlign a) : 0 < a.toNat := by
  obtain ⟨k, -, hk⟩ := ha
  rw [hk]
  exact Nat.two_pow_pos k

lemma IsAlign.le (ha : IsAlign a) : a.toNat ≤ 2 ^ 30 := by
  obtain ⟨k, hle, hk⟩ := ha
  rw [hk]
  exact Nat.pow_le_pow_right (by omega) hle

lemma isAlign_one : IsAlign 1 := ⟨0, by omega, rfl⟩

lemma isAlign_of_unit {unit : UInt64} (h : unit ∈ [1, 2, 4, 8]) : IsAlign unit := by
  simp only [mem_cons, not_mem_nil, or_false] at h
  rcases h with rfl | rfl | rfl | rfl
  · exact ⟨0, by omega, rfl⟩
  · exact ⟨1, by omega, rfl⟩
  · exact ⟨2, by omega, rfl⟩
  · exact ⟨3, by omega, rfl⟩

/-! ## Places -/

/-- The position of the pass. -/
def bitPos (byteOffset bitOffset : UInt64) : ℕ := 8 * byteOffset.toNat + bitOffset.toNat

variable {byteOffset bitOffset : UInt64} {pos : ℕ}

lemma byteOffset_le_bitPos : 8 * byteOffset.toNat ≤ bitPos byteOffset bitOffset := by
  unfold bitPos
  omega

/-- `roundup(fullBitOffset, 8) / 8` -/
lemma roundup_bytes {full : UInt64} (hfull : full.toNat = pos) (hlt : pos < 2 ^ 62) :
    ∃ r, roundup full 8 = .ok r ∧ (r / 8).toNat = ceil8 pos := by
  have h8 : (8 : UInt64).toNat = 2 ^ 3 := rfl
  obtain ⟨r, hr, hnat⟩ := roundup_spec h8 (v := full) (by simp; omega)
  refine ⟨r, hr, ?_⟩
  have h8' : (8 : UInt64).toNat = 8 := rfl
  rw [UInt64.toNat_div, hnat, h8', alignUp, Nat.mul_div_cancel _ (by omega), hfull]
  rfl

lemma placePlain_zero : placePlain 0 byteOffset bitOffset = .ok ⟨0, 0, 0⟩ := by
  obtain ⟨r, hr, -⟩ := rounddown_spec (a := 8) (k := 3) rfl (byteOffset * 8 + bitOffset + 8 - 1)
  have hround : roundup (byteOffset * 8 + bitOffset) 8 = .ok r := hr
  simp only [placePlain, hround, bind_eq_ok_iff]
  exact ⟨_, rfl, _, roundup_zero _, rfl⟩

section

variable (hpos : bitPos byteOffset bitOffset = pos) (hlt : pos < 2 ^ 62)

include hpos hlt

lemma toNat_fullBitOffset : (byteOffset * 8 + bitOffset).toNat = pos := by
  unfold bitPos at hpos
  rw [toNat_add, toNat_mul_eight (by omega), Nat.mod_eq_of_lt (by omega), hpos]

lemma placePlain_spec {a : UInt64} (ha : IsAlign a) :
    ∃ place, placePlain a byteOffset bitOffset = .ok place ∧
      place.fieldOffset.toNat = alignUp a.toNat (ceil8 pos) ∧ place.bitOffset = 0 := by
  obtain ⟨r, hr, hnat⟩ := roundup_bytes (toNat_fullBitOffset hpos hlt) hlt
  have hle := ha.le
  obtain ⟨k, -, hk⟩ := ha
  obtain ⟨fo, hfo, hfonat⟩ := roundup_spec hk (v := r / 8) (by
    rw [hnat, ceil8]
    omega)
  refine ⟨⟨fo, 0, 0⟩, ?_, ?_, rfl⟩
  · simp only [placePlain, hr, bind_eq_ok_iff]
    exact ⟨_, rfl, _, hfo, rfl⟩
  · rw [hfonat, hnat]

end

/-- The alignment of the unit of a bitfield. -/
def unitAlign (packed : Bool) (unit : UInt64) : ℕ := if packed then 1 else unit.toNat

/-- The bitfield fits in what is left of the unit at the position. -/
def Fits (packed : Bool) (unit length : UInt64) (pos : ℕ) : Prop :=
  pos % (8 * unitAlign packed unit) + length.toNat ≤ 8 * unit.toNat

instance (packed : Bool) (unit length : UInt64) (pos : ℕ) : Decidable (Fits packed unit length pos) :=
  inferInstanceAs (Decidable (_ ≤ _))

variable {packed : Bool} {unit length : UInt64}

section

variable (hunit : unit ∈ [1, 2, 4, 8])

include hunit

lemma unitAlign_spec :
    0 < unitAlign packed unit ∧ unitAlign packed unit ≤ unit.toNat ∧ unit.toNat ≤ 8 ∧
      IsAlign (if packed then 1 else unit) ∧
      (if packed then 1 else unit : UInt64).toNat = unitAlign packed unit := by
  have hle : unit.toNat ≤ 8 := by
    simp only [mem_cons, not_mem_nil, or_false] at hunit
    rcases hunit with rfl | rfl | rfl | rfl <;> decide
  have hpos := (isAlign_of_unit hunit).pos
  cases packed with
  | true => exact ⟨Nat.one_pos, hpos, hle, isAlign_one, rfl⟩
  | false => exact ⟨hpos, le_refl _, hle, isAlign_of_unit hunit, rfl⟩

variable (hpos : bitPos byteOffset bitOffset = pos) (hlt : pos < 2 ^ 62)

include hpos hlt

/-- The numbers that `placeBitfield` computes first. -/
lemma rounddown_unit :
    ∃ fo : UInt64,
      rounddown ((byteOffset * 8 + bitOffset) / 8) (if packed then 1 else unit) = .ok fo ∧
      (fo * 8).toNat = 8 * fo.toNat ∧ (unit * 8).toNat = 8 * unit.toNat ∧
      8 * fo.toNat + pos % (8 * unitAlign packed unit) = pos ∧
      (byteOffset * 8 + bitOffset - fo * 8).toNat = pos % (8 * unitAlign packed unit) ∧
      (unit * 8 - (byteOffset * 8 + bitOffset - fo * 8)).toNat =
        8 * unit.toNat - pos % (8 * unitAlign packed unit) := by
  obtain ⟨hua, huale, hule, ⟨k, -, hk⟩, huanat⟩ := @unitAlign_spec packed unit hunit
  have hfull := toNat_fullBitOffset hpos hlt
  obtain ⟨fo, hfo, hnat⟩ := rounddown_spec hk ((byteOffset * 8 + bitOffset) / 8)
  have h8 : (8 : UInt64).toNat = 8 := rfl
  generalize unitAlign packed unit = ua at *
  rw [huanat, UInt64.toNat_div, hfull, h8, Nat.div_div_eq_div_mul] at hnat
  have hsplit := Nat.div_add_mod pos (8 * ua)
  have hmod := Nat.mod_lt pos (Nat.mul_pos (by omega : 0 < 8) hua)
  have hpart : 8 * fo.toNat = 8 * ua * (pos / (8 * ua)) := by
    rw [hnat]
    ring
  have hmul : (fo * 8).toNat = 8 * fo.toNat := toNat_mul_eight (by omega)
  have hunits : (unit * 8).toNat = 8 * unit.toNat := toNat_mul_eight (by omega)
  have hocc : (byteOffset * 8 + bitOffset - fo * 8).toNat = pos % (8 * ua) := by
    rw [toNat_sub_of_le, hfull, hmul]
    · omega
    · rw [le_iff_toNat_le, hfull, hmul]
      omega
  refine ⟨fo, hfo, hmul, hunits, by omega, hocc, ?_⟩
  rw [toNat_sub_of_le, hunits, hocc]
  rw [le_iff_toNat_le, hunits, hocc]
  omega

/-- A bitfield that fits starts at the current bit and stays in its unit. -/
lemma placeBitfield_fits (hlen : 0 < length.toNat) (hfits : Fits packed unit length pos) :
    ∃ place, placeBitfield packed unit length byteOffset bitOffset = .ok place ∧
      8 * place.fieldOffset.toNat + place.fieldBitOffset.toNat = pos ∧
      place.fieldBitOffset.toNat + length.toNat ≤ 8 * unit.toNat ∧
      (place.bitOffset = bitOffset ∨ 8 * place.fieldOffset.toNat = pos ∧ place.bitOffset = 0) := by
  obtain ⟨fo, hfo, hmul, hunits, hsplit, hocc, hremain⟩ :=
    @rounddown_unit _ _ _ packed unit hunit hpos hlt
  have hfull := toNat_fullBitOffset hpos hlt
  unfold Fits at hfits
  let bits := byteOffset * 8 + bitOffset - fo * 8
  have hnot : ¬ unit * 8 - bits < length := by
    rw [lt_iff_toNat_lt, hremain]
    omega
  simp only [placeBitfield, hfo, bind_eq_ok_iff]
  by_cases hempty : byteOffset * 8 + bitOffset ≤ fo * 8
  · -- No bit of the unit is taken.
    have hle := UInt64.le_iff_toNat_le.mp hempty
    refine ⟨⟨fo, (fo * 8 - fo * 8) % (unit * 8), 0⟩, ⟨fo, rfl, ?_⟩, ?_⟩
    · rw [if_neg hnot, if_pos hempty]
      rfl
    · rw [UInt64.sub_self, UInt64.zero_mod, toNat_zero]
      dsimp only
      exact ⟨by omega, by omega, .inr ⟨by omega, rfl⟩⟩
  · have hbits : (bits % (unit * 8)).toNat = pos % (8 * unitAlign packed unit) := by
      rw [toNat_mod, hocc, hunits, Nat.mod_eq_of_lt (by omega)]
    refine ⟨⟨fo, bits % (unit * 8), bitOffset⟩, ⟨fo, rfl, ?_⟩, ?_⟩
    · rw [if_neg hnot, if_neg hempty]
      rfl
    · refine ⟨?_, ?_, .inl rfl⟩
      · rw [hbits]
        exact hsplit
      · rw [hbits]
        exact hfits

/-- A bitfield that does not fit goes to the next unit, and its place there is the negated offset
of the unit. -/
lemma placeBitfield_not_fits (hlen : length.toNat ≤ 8 * unit.toNat)
    (hfits : ¬ Fits packed unit length pos) :
    ∃ place, placeBitfield packed unit length byteOffset bitOffset = .ok place ∧
      place.fieldOffset.toNat = alignUp (unitAlign packed unit) (ceil8 pos) ∧
      (8 * place.fieldOffset.toNat + place.fieldBitOffset.toNat) % (8 * unit.toNat) = 0 ∧
      place.fieldBitOffset.toNat < 8 * unit.toNat ∧ place.bitOffset = 0 := by
  obtain ⟨fo, hfo, -, hunits, -, -, hremain⟩ := @rounddown_unit _ _ _ packed unit hunit hpos hlt
  obtain ⟨hua, huale, hule, halign, huanat⟩ := @unitAlign_spec packed unit hunit
  unfold Fits at hfits
  have hless : unit * 8 - (byteOffset * 8 + bitOffset - fo * 8) < length := by
    rw [lt_iff_toNat_lt, hremain]
    have hmod := Nat.mod_lt pos (Nat.mul_pos (by omega : 0 < 8) hua)
    omega
  obtain ⟨r, hr, hrnat⟩ := roundup_bytes (toNat_fullBitOffset hpos hlt) hlt
  obtain ⟨k, -, hk⟩ := halign
  obtain ⟨fo', hfo', hfonat⟩ := roundup_spec hk (v := r / 8) (by
    rw [hrnat, huanat, ceil8]
    omega)
  rw [huanat, hrnat] at hfonat
  have hfolt : fo'.toNat < 2 ^ 60 := by
    have := alignUp_lt hua (ceil8 pos)
    rw [hfonat]
    unfold ceil8 at *
    omega
  refine ⟨⟨fo', (0 - fo' * 8) % (unit * 8), 0⟩, ?_, hfonat, ?_⟩
  · simp only [placeBitfield, hfo, hr, bind_eq_ok_iff]
    refine ⟨fo, rfl, ?_⟩
    rw [if_pos hless]
    simp only [bind_eq_ok_iff]
    exact ⟨r, rfl, fo', hfo', rfl⟩
  · have hneg : (0 - fo' * 8 : UInt64).toNat = (2 ^ 64 - 8 * fo'.toNat) % 2 ^ 64 := by
      rw [UInt64.toNat_sub, toNat_mul_eight (by omega), toNat_zero, Nat.add_zero]
    have hunitpos : 0 < 8 * unit.toNat := by omega
    have hmodlt : (2 ^ 64 - 8 * fo'.toNat) % 2 ^ 64 % (8 * unit.toNat) < 8 * unit.toNat :=
      Nat.mod_lt _ hunitpos
    show (8 * fo'.toNat + ((0 - fo' * 8) % (unit * 8)).toNat) % _ = 0 ∧
      ((0 - fo' * 8) % (unit * 8)).toNat < _ ∧ _
    rw [toNat_mod, hunits, hneg]
    refine ⟨?_, hmodlt, rfl⟩
    -- The size of the unit divides `2 ^ 64`.
    have hdvd : 8 * unit.toNat ∣ 2 ^ 64 := by
      simp only [mem_cons, not_mem_nil, or_false] at hunit
      rcases hunit with rfl | rfl | rfl | rfl <;> decide
    rw [Nat.mod_mod_of_dvd _ hdvd, Nat.add_mod_mod, Nat.add_sub_cancel' (by omega)]
    exact Nat.mod_eq_zero_of_dvd hdvd

end

/-! ## Where fields are -/

/-- The size of a field in an argument. -/
def OutField.size (o : OutField) : ℕ :=
  match o.field.map Field.kind with
  | some (.varlen size) => size
  | _ => o.typeSize.toNat

def total (os : List OutField) : ℕ := (os.map OutField.size).sum

/-- A field with the bits it is made of. -/
structure Placed where
  field : Option Field
  bitfieldOff : ℕ
  start : ℕ
  stop : ℕ

/-- The place of a field when `pos` bytes are before it. -/
def OutField.placed (o : OutField) (pos : ℕ) : Placed :=
  match o.field.map Field.kind with
  | some (.bitfield _ length) =>
    { field := o.field
      bitfieldOff := o.bitfieldOff.toNat
      start := 8 * (pos - o.bitfieldUnitOff.toNat) + o.bitfieldOff.toNat
      stop := 8 * (pos - o.bitfieldUnitOff.toNat) + o.bitfieldOff.toNat + length.toNat }
  | _ => { field := o.field, bitfieldOff := 0, start := 8 * pos, stop := 8 * pos + 8 * o.size }

/-- The places of fields that follow each other. -/
def placed : ℕ → List OutField → List Placed
  | _, [] => []
  | pos, o :: os => o.placed pos :: placed (pos + o.size) os

/-- A bitfield is inside its unit. -/
def Placed.InUnit (p : Placed) : Prop :=
  match p.field.map Field.kind with
  | some (.bitfield unit length) => p.bitfieldOff + length.toNat ≤ 8 * unit.toNat
  | _ => True

/-- A field that is no bitfield starts at a multiple of its alignment. -/
def Placed.Aligned (p : Placed) : Prop :=
  match p.field with
  | some f => f.kind.isBitfield = false → 8 * f.finalAlign.toNat ∣ p.start
  | none => True

/-- Fields that do what they should: bitfields are inside their units, other fields are aligned
unless the struct is packed, and each field ends before the next one starts. -/
structure Sound (packed : Bool) (l : List Placed) : Prop where
  inUnit : ∀ p ∈ l, p.InUnit
  aligned : packed = false → ∀ p ∈ l, p.Aligned
  ordered : l.Pairwise fun p q => p.stop ≤ q.start

/-- The end of the last field that is no padding. -/
def lastStop (l : List Placed) : ℕ := ((l.filter (·.field.isSome)).getLast?).elim 0 Placed.stop

lemma placed_append (pos : ℕ) (os os' : List OutField) :
    placed pos (os ++ os') = placed pos os ++ placed (pos + total os) os' := by
  induction os generalizing pos with
  | nil => rfl
  | cons o os ih =>
    show o.placed pos :: placed (pos + o.size) (os ++ os') = _
    have htotal : total (o :: os) = o.size + total os := by simp [total]
    rw [ih, htotal, Nat.add_assoc]
    rfl

lemma placed_concat (os : List OutField) (o : OutField) :
    placed 0 (os ++ [o]) = placed 0 os ++ [o.placed (total os)] := by
  rw [placed_append, Nat.zero_add]
  rfl

lemma total_concat (os : List OutField) (o : OutField) : total (os ++ [o]) = total os + o.size := by
  simp [total]

variable {l l' : List Placed}

lemma Sound.mono (h : Sound packed l') (hl : l <+: l') : Sound packed l where
  inUnit p hp := h.inUnit p (hl.subset hp)
  aligned hpacked p hp := h.aligned hpacked p (hl.subset hp)
  ordered := h.ordered.sublist hl.sublist

variable {p : Placed}

/-- A layout is extended soundly by a field behind all others. -/
lemma sound_concat_iff : Sound packed (l ++ [p]) ↔
      Sound packed l ∧ p.InUnit ∧ (packed = false → p.Aligned) ∧ ∀ q ∈ l, q.stop ≤ p.start := by
  constructor
  · intro h
    have hp : p ∈ l ++ [p] := by simp
    refine ⟨h.mono (prefix_append _ _), h.inUnit p hp, fun hpk => h.aligned hpk p hp, ?_⟩
    intro q hq
    exact (pairwise_append.mp h.ordered).2.2 q hq p (mem_singleton.mpr rfl)
  · rintro ⟨h, hunit, haligned, hordered⟩
    refine ⟨?_, fun hpacked => ?_, ?_⟩
    · rw [forall_mem_append, forall_mem_singleton]
      exact ⟨h.inUnit, hunit⟩
    · rw [forall_mem_append, forall_mem_singleton]
      exact ⟨h.aligned hpacked, haligned hpacked⟩
    · simp only [pairwise_append, pairwise_singleton, true_and, forall_mem_singleton]
      exact ⟨h.ordered, hordered⟩

lemma Sound.concat_pad {pad : Placed} (h : Sound packed l)
    (hnone : pad.field = none) (hbehind : ∀ q ∈ l, q.stop ≤ pad.start) :
    Sound packed (l ++ [pad]) := by
  rw [sound_concat_iff]
  refine ⟨h, ?_, ?_, hbehind⟩
  · simp [Placed.InUnit, hnone]
  · simp [Placed.Aligned, hnone]

lemma lastStop_concat (l : List Placed) (p : Placed) :
    lastStop (l ++ [p]) = if p.field.isSome then p.stop else lastStop l := by
  unfold lastStop
  split
  · rename_i hsome
    simp [hsome]
  · rename_i hnone
    simp [hnone]

lemma exists_stop_eq_lastStop {l : List Placed} (h : lastStop l ≠ 0) :
    ∃ p ∈ l, p.stop = lastStop l := by
  unfold lastStop at h ⊢
  cases hlast : (l.filter (·.field.isSome)).getLast? with
  | none =>
    rw [hlast] at h
    exact absurd rfl h
  | some p => exact ⟨p, (mem_filter.mp (mem_of_getLast? hlast)).1, rfl⟩

/-- The last field is a bitfield that has no size yet. -/
def LastBitfield (os : List OutField) : Prop :=
  ∃ init o, os = init ++ [o] ∧ o.typeSize = 0 ∧
    ∃ unit length, o.field.map Field.kind = some (.bitfield unit length)

lemma setLast_spec {os : List OutField} (h : LastBitfield os) (size : UInt64) :
    placed 0 (setLastTypeSize size os) = placed 0 os ∧
      total (setLastTypeSize size os) = total os + size.toNat := by
  obtain ⟨init, o, rfl, hzero, unit, length, hkind⟩ := h
  have hset : setLastTypeSize size (init ++ [o]) = init ++ [{ o with typeSize := size }] :=
    modifyLast_concat _ _ _
  have hsize : o.size = 0 := by simp [OutField.size, hkind, hzero]
  have hsize' : OutField.size { o with typeSize := size } = size.toNat := by
    simp [OutField.size, hkind]
  rw [hset]
  constructor
  · rw [placed_concat, placed_concat]
    simp [OutField.placed, hkind]
  · rw [total_concat, total_concat, hsize, hsize', Nat.add_zero]

/-! ## One field -/

/-- A state of the loop: `bits` says that the last field was a bitfield. -/
structure Runs (st : LayoutState) (bits : Bool) : Prop where
  last : bits = true → LastBitfield st.newFields
  bits_iff : bits = true ↔ 0 < st.bitOffset.toNat
  bound : bitPos st.byteOffset st.bitOffset < 2 ^ 62

/-- What is in a list of places after a gap was closed. -/
def GapFilled (l l' : List Placed) (start stop : ℕ) : Prop :=
  l' = l ∨ ∃ pad : Placed, l' = l ++ [pad] ∧ pad.field = none ∧ pad.start = start ∧ pad.stop = stop

/-- What closing the gap before a field does to the state. The bits that were pending are either
kept, or forgotten if the place says so. -/
structure GapClosed (st : LayoutState) (bits : Bool) (place : Place) (st1 : LayoutState) : Prop where
  byteOffset_eq : st1.byteOffset.toNat = max st.byteOffset.toNat place.fieldOffset.toNat
  bitOffset_eq : if place.bitOffset = 0 then st1.bitOffset = 0
    else bitPos st1.byteOffset st1.bitOffset = bitPos st.byteOffset st.bitOffset
  total_eq : total st1.newFields + st.byteOffset.toNat = total st.newFields + st1.byteOffset.toNat
  placed_eq : if bits then placed 0 st1.newFields = placed 0 st.newFields
    else GapFilled (placed 0 st.newFields) (placed 0 st1.newFields)
      (8 * total st.newFields) (8 * total st1.newFields)

variable {st st1 : LayoutState} {bits : Bool} {place : Place} {structName : String}
  {prev : Option Field} {f : Field}

lemma Runs.bitOffset_eq_zero (hruns : Runs st false) : st.bitOffset.toNat = 0 := by
  have hnot : ¬ 0 < st.bitOffset.toNat := fun h => by cases hruns.bits_iff.mpr h
  omega

variable (hruns : Runs st bits) (hprev : prev.any (·.kind.isBitfield) = bits)
  (hfo : place.fieldOffset.toNat < 2 ^ 60)
  (hplace : place.bitOffset = 0 ∨
    place.bitOffset = st.bitOffset ∧
      8 * place.fieldOffset.toNat ≤ bitPos st.byteOffset st.bitOffset)

include hruns hprev hfo hplace in
/-- After the gap the position is where the field goes. -/
lemma fillGap_spec :
    ∃ st1, fillGap structName prev f st place = .ok st1 ∧ st1.structAlign = st.structAlign ∧
      GapClosed st bits place st1 := by
  have hbound := hruns.bound
  unfold bitPos at hbound hplace
  unfold fillGap
  by_cases hgap : st.byteOffset < place.fieldOffset
  · have hlt := UInt64.lt_iff_toNat_lt.mp hgap
    have hpad := toNat_sub_of_le _ _ (UInt64.le_iff_toNat_le.mpr (Nat.le_of_lt hlt))
    generalize place.fieldOffset - st.byteOffset = pad at hpad ⊢
    have hbyte : (st.byteOffset + pad).toNat = place.fieldOffset.toNat := by
      rw [toNat_add, hpad, Nat.mod_eq_of_lt (by omega)]
      omega
    have h8pad : (8 * pad).toNat = 8 * (place.fieldOffset.toNat - st.byteOffset.toNat) := by
      rw [UInt64.mul_comm, toNat_mul_eight (by omega), hpad]
    have hmax : max st.byteOffset.toNat place.fieldOffset.toNat = place.fieldOffset.toNat := by
      omega
    rw [← hmax] at hbyte
    rw [if_pos hgap, hprev]
    cases bits with
    | true =>
      -- The last bitfield gets the bytes of the gap.
      obtain ⟨hplaced, htotal⟩ := setLast_spec (hruns.last rfl) pad
      have hsum : total (setLastTypeSize pad st.newFields) + st.byteOffset.toNat =
          total st.newFields + (st.byteOffset + pad).toNat := by
        rw [htotal, hbyte, hpad]
        omega
      by_cases hconsume : 8 * pad ≤ place.bitOffset
      · have hle := UInt64.le_iff_toNat_le.mp hconsume
        rw [h8pad] at hle
        have hne : place.bitOffset ≠ 0 := by
          intro hzero
          rw [hzero, toNat_zero] at hle
          omega
        refine ⟨_, if_pos hconsume, rfl, hbyte, ?_, hsum, hplaced⟩
        · rw [if_neg hne]
          have hkeep := (hplace.resolve_left hne).1
          show 8 * (st.byteOffset + _).toNat + (place.bitOffset - _).toNat = bitPos _ _
          rw [hbyte, toNat_sub_of_le _ _ hconsume, h8pad, hkeep, bitPos]
          rw [hkeep] at hle
          omega
      · -- The bits are not pending any more, so this is no bad offset.
        have hzero : place.bitOffset = 0 := by
          refine hplace.resolve_right fun hkeep => hconsume ?_
          rw [le_iff_toNat_le, h8pad, hkeep.1]
          omega
        have hnot : ¬ (8 : UInt64) ≤ place.bitOffset := by
          rw [hzero]
          decide
        dsimp only
        rw [if_neg hconsume, if_neg hnot]
        refine ⟨_, rfl, rfl, hbyte, ?_, hsum, hplaced⟩
        rw [if_pos hzero]
        exact hzero
    | false =>
      have hnobits := hruns.bitOffset_eq_zero
      have hzero : place.bitOffset = 0 := by
        refine hplace.elim id fun hkeep => ?_
        omega
      rw [if_neg (by decide)]
      refine ⟨_, rfl, rfl, hbyte, ?_, ?_, ?_⟩
      · rw [if_pos hzero]
        exact hzero
      · show total (st.newFields ++ [_]) + _ = _ + (st.byteOffset + _).toNat
        rw [total_concat, hbyte]
        show _ + pad.toNat + _ = _
        rw [hpad]
        omega
      · refine .inr ⟨_, placed_concat _ _, rfl, rfl, ?_⟩
        show 8 * total st.newFields + 8 * (genPad _).size = 8 * total (_ ++ _)
        rw [total_concat, Nat.mul_add]
  · have hmax : max st.byteOffset.toNat place.fieldOffset.toNat = st.byteOffset.toNat := by
      rw [lt_iff_toNat_lt] at hgap
      omega
    rw [if_neg hgap]
    refine ⟨_, rfl, rfl, hmax.symm, ?_, rfl, ?_⟩
    · split
      · rename_i hzero
        exact hzero
      · rename_i hne
        show bitPos st.byteOffset place.bitOffset = _
        rw [(hplace.resolve_left hne).1]
    · split
      · rfl
      · exact .inl rfl

/-! ## Where fields should be -/

namespace Field

/-- The first bit of a field behind the position `pos`. -/
def startPos (packed : Bool) (f : Field) (pos : ℕ) : ℕ :=
  match f.kind with
  | .bitfield unit length =>
    if Fits packed unit length pos then pos else 8 * alignUp (unitAlign packed unit) (ceil8 pos)
  | _ => 8 * alignUp (if packed then 1 else f.finalAlign.toNat) (ceil8 pos)

/-- The static number of bits of a field. -/
def bitSize (f : Field) : ℕ :=
  match f.kind with
  | .fixed size => 8 * size.toNat
  | .varlen _ => 0
  | .bitfield _ length => length.toNat

/-- The bytes of a field that has no static size. -/
def dynSize (f : Field) : ℕ :=
  match f.kind with
  | .varlen size => size
  | _ => 0

/-- When the pass puts a field where it should be: a bitfield of a packed struct has to fit, or to
come at a multiple of its unit, and a field whose alignment is not known has to be at a multiple
of it by chance, and not to follow a bitfield (`bits`). -/
def Lays (packed bits : Bool) (pos : ℕ) (f : Field) : Prop :=
  match f.kind with
  | .bitfield unit length =>
    Fits packed unit length pos ∨ packed = false ∨ unit.toNat ∣ ceil8 pos
  | _ => packed = true ∨ f.align ≠ 0 ∨ bits = false ∧ f.finalAlign.toNat ∣ ceil8 pos

/-- An upper bound for the bytes that a field takes, with what is before it. -/
def extent (f : Field) : ℕ :=
  match f.kind with
  | .fixed size => size.toNat + f.finalAlign.toNat + 1
  | .varlen _ => f.finalAlign.toNat + 1
  | .bitfield unit _ => 2 * unit.toNat + 1

end Field

/-- The pass is where it should be: `pos` is the position, and the fields without a static size
have `dyn` bytes. -/
structure Synced (packed : Bool) (st : LayoutState) (dyn pos : ℕ) : Prop where
  pos_eq : bitPos st.byteOffset st.bitOffset = pos
  total_eq : total st.newFields = st.byteOffset.toNat + dyn
  sound : Sound packed (placed 0 st.newFields)
  stop_le : ∀ p ∈ placed 0 st.newFields, p.stop ≤ pos + 8 * dyn
  lastStop_eq : lastStop (placed 0 st.newFields) = pos + 8 * dyn

/-- What one field does to a state. -/
structure Step (packed : Bool) (st : LayoutState) (bits : Bool) (f : Field) (st' : LayoutState) :
    Prop where
  last : f.kind.isBitfield = true → LastBitfield st'.newFields
  bits_iff : f.kind.isBitfield = true ↔ 0 < st'.bitOffset.toNat
  pos_le : bitPos st'.byteOffset st'.bitOffset ≤ bitPos st.byteOffset st.bitOffset + 8 * f.extent
  structAlign_eq : st'.structAlign = if packed then st.structAlign else max st.structAlign f.align
  keeps_placed : placed 0 st.newFields <+: placed 0 st'.newFields
  synced : ∀ dyn pos, (packed = false → dyn = 0) → Synced packed st dyn pos →
    f.Lays packed bits pos →
      Synced packed st' (dyn + f.dynSize) (f.startPos packed pos + f.bitSize)
  not_sound : ∀ dyn pos, (packed = false → dyn = 0) → Synced packed st dyn pos →
    ¬ f.Lays packed bits pos → ¬ Sound packed (placed 0 st'.newFields)

/-- A gap is closed by padding only if no bits are pending. -/
lemma GapClosed.cases (h : GapClosed st bits place st1) :
    placed 0 st1.newFields = placed 0 st.newFields ∨ bits = false ∧ ∃ pad : Placed,
      placed 0 st1.newFields = placed 0 st.newFields ++ [pad] ∧ pad.field = none ∧
      pad.start = 8 * total st.newFields ∧ pad.stop = 8 * total st1.newFields := by
  have hplaced := h.placed_eq
  cases bits with
  | true => exact .inl hplaced
  | false => exact hplaced.imp id fun hpad => ⟨rfl, hpad⟩

lemma GapClosed.extends (h : GapClosed st bits place st1) (o : OutField) :
    placed 0 st.newFields <+: placed 0 (st1.newFields ++ [o]) := by
  rw [placed_concat]
  rcases h.cases with hplaced | ⟨-, pad, hplaced, -⟩
  · exact hplaced ▸ prefix_append _ _
  · exact hplaced ▸ append_assoc .. ▸ prefix_append _ _

variable {dyn pos : ℕ}

/-- Closing the gap of an open bitfield run keeps the layout sound. -/
lemma Synced.gap (hsync : Synced packed st dyn pos) (hruns : Runs st bits)
    (hgap : GapClosed st bits place st1) :
    Sound packed (placed 0 st1.newFields) ∧
      total st1.newFields = st1.byteOffset.toNat + dyn ∧
      ∀ p ∈ placed 0 st1.newFields,
        p.stop ≤ max (pos + 8 * dyn) (8 * st1.byteOffset.toNat + 8 * dyn) := by
  have htotal := hgap.total_eq
  have hsum := hsync.total_eq
  refine ⟨?_, by omega, ?_⟩
  · rcases hgap.cases with hplaced | ⟨rfl, pad, hplaced, hnone, hstart, -⟩
    · rw [hplaced]
      exact hsync.sound
    · rw [hplaced]
      refine hsync.sound.concat_pad hnone fun q hq => ?_
      -- No bits are pending, so the padding starts at the position.
      have hstop := hsync.stop_le q hq
      have hpos := hsync.pos_eq
      rw [bitPos, hruns.bitOffset_eq_zero] at hpos
      omega
  · intro p hp
    rcases hgap.cases with hplaced | ⟨-, pad, hplaced, -, -, hstop⟩
    · rw [hplaced] at hp
      exact le_max_of_le_left (hsync.stop_le p hp)
    · rw [hplaced, mem_append] at hp
      rcases hp with hp | hp
      · exact le_max_of_le_left (hsync.stop_le p hp)
      · rw [mem_singleton.mp hp, hstop]
        omega

/-- Adding a field behind the others keeps state and layout in step. -/
lemma synced_of_add {fields : List OutField} {o : OutField} {st' : LayoutState}
    (hsound : Sound packed (placed 0 fields)) (hsome : p.field.isSome = true)
    (hfields : st'.newFields = fields ++ [o]) (hp : o.placed (total fields) = p) (hunit : p.InUnit)
    (haligned : packed = false → p.Aligned) (hbehind : ∀ q ∈ placed 0 fields, q.stop ≤ p.start)
    (hle : p.start ≤ p.stop) (hstop : p.stop = pos + 8 * dyn)
    (hpos : bitPos st'.byteOffset st'.bitOffset = pos)
    (htotal : total st'.newFields = st'.byteOffset.toNat + dyn) : Synced packed st' dyn pos := by
  have hplaced : placed 0 st'.newFields = placed 0 fields ++ [p] := by
    rw [hfields, placed_concat, hp]
  refine ⟨hpos, htotal, ?_, ?_, ?_⟩
  · rw [hplaced, sound_concat_iff]
    exact ⟨hsound, hunit, haligned, hbehind⟩
  · intro q hq
    rw [hplaced, mem_append] at hq
    rcases hq with hq | hq
    · have := hbehind q hq
      omega
    · rw [mem_singleton.mp hq]
      omega
  · rw [hplaced, lastStop_concat, if_pos hsome, hstop]

/-- The state with the alignment of the next field. -/
def withAlign (packed : Bool) (f : Field) (st : LayoutState) : LayoutState :=
  if packed then st else { st with structAlign := max st.structAlign f.align }

lemma layoutField_eq (packed : Bool) :
    layoutField structName packed prev st f =
      (placeField packed f st.byteOffset st.bitOffset >>= fun place =>
        fillGap structName prev f (withAlign packed f st) place >>= fun st1 =>
          .ok (addField f st1 place)) := by
  cases packed <;> rfl

include hruns hprev hfo hplace in
/-- `fillGap` in the loop. -/
lemma layoutField_of_place
    (hplaceField : placeField packed f st.byteOffset st.bitOffset = .ok place) :
    ∃ st1, layoutField structName packed prev st f = .ok (addField f st1 place) ∧
      st1.structAlign = (if packed then st.structAlign else max st.structAlign f.align) ∧
      GapClosed st bits place st1 := by
  -- The alignment of the struct is not read.
  have hruns' : Runs (withAlign packed f st) bits := by
    cases packed <;> exact ⟨hruns.last, hruns.bits_iff, hruns.bound⟩
  obtain ⟨st1, hgap, halign, hclosed⟩ :=
    @fillGap_spec _ bits place structName prev f hruns' hprev hfo (by cases packed <;> exact hplace)
  refine ⟨st1, ?_, ?_, ?_⟩
  · rw [layoutField_eq, hplaceField]
    show (fillGap _ _ _ _ _ >>= _) = _
    rw [hgap]
    rfl
  · rw [halign, withAlign]
    split <;> rfl
  · cases packed <;> exact ⟨hclosed.1, hclosed.2, hclosed.3, hclosed.4⟩

/-! ## Fields that are no bitfields -/

/-- The state after a field that is no bitfield. -/
def plainAdd (f : Field) (st : LayoutState) : LayoutState :=
  { st with
    newFields := st.newFields ++ [{
      field := some f, typeSize := f.kind.typeSize, bitfieldOff := 0, bitfieldUnitOff := 0 }]
    byteOffset := st.byteOffset + f.kind.typeSize }

section

variable (hkind : f.kind.isBitfield = false)

include hkind

lemma Field.ne_bitfield (unit length : UInt64) : f.kind ≠ .bitfield unit length := by
  intro hf
  rw [hf] at hkind
  cases hkind

lemma addField_plain (st : LayoutState) (place : Place) : addField f st place = plainAdd f st := by
  unfold addField
  split
  · exact absurd ‹_› (ne_bitfield hkind _ _)
  · rfl

/-- The new field of `addField_plain` at its place. -/
lemma placed_plain (pos : ℕ) :
    (OutField.placed { field := some f, typeSize := f.kind.typeSize, bitfieldOff := 0
                       bitfieldUnitOff := 0 } pos) =
      { field := some f, bitfieldOff := 0, start := 8 * pos
        stop := 8 * pos + f.bitSize + 8 * f.dynSize } ∧
    (OutField.size { field := some f, typeSize := f.kind.typeSize, bitfieldOff := 0
                     bitfieldUnitOff := 0 }) = f.kind.typeSize.toNat + f.dynSize ∧
    f.bitSize = 8 * f.kind.typeSize.toNat := by
  unfold OutField.placed OutField.size bitSize dynSize
  cases hf : f.kind with
  | fixed size | varlen size => simp [hf, FieldKind.typeSize]
  | bitfield unit length => exact absurd hf (ne_bitfield hkind _ _)

lemma inUnit_plain (hp : p.field = some f) : p.InUnit := by
  unfold Placed.InUnit
  rw [hp]
  split
  · rename_i hf
    exact absurd (Option.some.inj hf) (ne_bitfield hkind _ _)
  · trivial

lemma startPos_plain (packed : Bool) (pos : ℕ) :
    f.startPos packed pos =
      8 * alignUp (if packed then 1 else f.finalAlign.toNat) (ceil8 pos) := by
  unfold startPos
  split
  · exact absurd ‹_› (ne_bitfield hkind _ _)
  · rfl

lemma lays_plain (packed bits : Bool) (pos : ℕ) :
    f.Lays packed bits pos ↔
      packed = true ∨ f.align ≠ 0 ∨ bits = false ∧ f.finalAlign.toNat ∣ ceil8 pos := by
  unfold Field.Lays
  split
  · exact absurd ‹_› (ne_bitfield hkind _ _)
  · exact Iff.rfl

lemma extent_plain : f.extent = f.kind.typeSize.toNat + f.finalAlign.toNat + 1 := by
  unfold extent
  cases hf : f.kind with
  | fixed size => rfl
  | varlen size => simp [FieldKind.typeSize]
  | bitfield unit length => exact absurd hf (ne_bitfield hkind _ _)

/-- The place of a field that is no bitfield: behind the position, or at 0 if the alignment is not
known. -/
lemma placeField_plain (packed : Bool) (hpos : bitPos byteOffset bitOffset = pos)
    (hlt : pos < 2 ^ 62) :
    ∃ place, placeField packed f byteOffset bitOffset = .ok place ∧ place.bitOffset = 0 ∧
      if packed = false ∧ f.align = 0 then place.fieldOffset.toNat = 0
      else place.fieldOffset.toNat =
        alignUp (if packed then 1 else f.finalAlign.toNat) (ceil8 pos) := by
  have hplaceField : placeField packed f byteOffset bitOffset =
      placePlain (if packed then 1 else f.align) byteOffset bitOffset := by
    unfold placeField
    split
    · exact absurd ‹_› (ne_bitfield hkind _ _)
    · rfl
  rw [hplaceField]
  cases packed with
  | true =>
    obtain ⟨place, hplace, hfo, hbit⟩ := placePlain_spec hpos hlt isAlign_one
    refine ⟨place, hplace, hbit, ?_⟩
    rw [if_neg (by simp), hfo]
    rfl
  | false =>
    by_cases hzero : f.align = 0
    · refine ⟨⟨0, 0, 0⟩, ?_, rfl, ?_⟩
      · rw [if_neg (by decide), hzero]
        exact placePlain_zero
      · rw [if_pos ⟨rfl, hzero⟩]
        rfl
    · have halign : f.align = f.finalAlign :=
        f.align_eq.resolve_right fun h => hzero h.1
      obtain ⟨place, hplace, hfo, hbit⟩ := placePlain_spec hpos hlt f.isAlign
      refine ⟨place, ?_, hbit, ?_⟩
      · rw [if_neg (by decide), halign]
        exact hplace
      · rw [if_neg (by simp [hzero]), hfo]
        rfl

end

/-- What is known after a field that is no bitfield was placed and the gap before it was closed. -/
structure PlainAdded (packed : Bool) (st st1 : LayoutState) (bits : Bool) (place : Place)
    (f : Field) : Prop where
  runs : Runs st bits
  gap : GapClosed st bits place st1
  bitOffset_eq : st1.bitOffset = 0
  offset_eq : st1.byteOffset.toNat = max st.byteOffset.toNat
    (if packed = false ∧ f.align = 0 then 0
      else alignUp (if packed then 1 else f.finalAlign.toNat)
        (ceil8 (bitPos st.byteOffset st.bitOffset)))
  no_overflow : (st1.byteOffset + f.kind.typeSize).toNat =
    st1.byteOffset.toNat + f.kind.typeSize.toNat

section

variable (h : PlainAdded packed st st1 bits place f)
  (hkind : f.kind.isBitfield = false)

include h hkind

/-- A field that is no bitfield starts at the aligned position. -/
lemma PlainAdded.start_eq (hpos : bitPos st.byteOffset st.bitOffset = pos)
    (hlays : f.Lays packed bits pos) :
    8 * st1.byteOffset.toNat = f.startPos packed pos ∧ pos ≤ 8 * st1.byteOffset.toNat := by
  have hge := le_ceil8 pos
  have hbytes : 8 * st.byteOffset.toNat ≤ pos := hpos ▸ byteOffset_le_bitPos
  have hoffset := h.offset_eq
  rw [hpos] at hoffset
  rw [lays_plain hkind] at hlays
  rw [startPos_plain hkind]
  split at hoffset
  · -- The alignment is not known, but happens to be right.
    rename_i hunknown
    obtain ⟨hnobits, hdvd⟩ := (hlays.resolve_left (by simp [hunknown.1])).resolve_left
      (fun hne => hne hunknown.2)
    have hzero := (hnobits ▸ h.runs).bitOffset_eq_zero
    rw [bitPos, hzero] at hpos
    rw [hunknown.1, if_neg (by decide), alignUp_of_dvd f.isAlign.pos hdvd, hoffset]
    omega
  · have hup : ceil8 pos ≤ alignUp (if packed then 1 else f.finalAlign.toNat) (ceil8 pos) := by
      apply le_alignUp
      cases packed with
      | true => exact Nat.one_pos
      | false => exact f.isAlign.pos
    omega

/-- Adding such a field keeps state and layout in step. -/
lemma PlainAdded.synced (hdyn : packed = false → dyn = 0)
    (hsync : Synced packed st dyn pos) (hlays : f.Lays packed bits pos) :
    Synced packed (plainAdd f st1) (dyn + f.dynSize) (f.startPos packed pos + f.bitSize) := by
  obtain ⟨hsound, hsum, hstops⟩ := hsync.gap h.runs h.gap
  obtain ⟨hp, hsize, hbitSize⟩ := @placed_plain f hkind (total st1.newFields)
  obtain ⟨hstart, hle⟩ := h.start_eq hkind hsync.pos_eq hlays
  refine synced_of_add hsound rfl rfl hp (inUnit_plain hkind rfl) ?_ ?_ ?_ ?_ ?_ ?_
  · intro hpacked _
    rw [hsum, hdyn hpacked, Nat.add_zero]
    show 8 * f.finalAlign.toNat ∣ 8 * st1.byteOffset.toNat
    rw [hstart, startPos_plain hkind, hpacked, if_neg (by decide)]
    exact Nat.mul_dvd_mul_left 8 (dvd_alignUp _ _)
  · intro q hq
    have := hstops q hq
    show q.stop ≤ 8 * total st1.newFields
    omega
  · show 8 * total st1.newFields ≤ 8 * total st1.newFields + f.bitSize + 8 * f.dynSize
    omega
  · show 8 * total st1.newFields + f.bitSize + 8 * f.dynSize = _
    omega
  · show 8 * (st1.byteOffset + f.kind.typeSize).toNat + st1.bitOffset.toNat = _
    rw [h.no_overflow, h.bitOffset_eq, toNat_zero]
    omega
  · show total (st1.newFields ++ [_]) = (st1.byteOffset + f.kind.typeSize).toNat + _
    rw [total_concat, hsize, h.no_overflow]
    omega

/-- A field that is not put where it should be makes the layout unsound. -/
lemma PlainAdded.not_sound (hdyn : packed = false → dyn = 0)
    (hsync : Synced packed st dyn pos) (hlays : ¬ f.Lays packed bits pos) :
    ¬ Sound packed (placed 0 (plainAdd f st1).newFields) := by
  intro hsound
  rw [lays_plain hkind] at hlays
  simp only [not_or, Bool.not_eq_true, ne_eq, not_not, not_and] at hlays
  obtain ⟨hpacked, hzero, hnot⟩ := hlays
  have hsum := (hsync.gap h.runs h.gap).2.1
  have hpos := hsync.pos_eq
  have hbyte := h.offset_eq
  rw [if_pos ⟨hpacked, hzero⟩, Nat.max_zero] at hbyte
  have hp := (@placed_plain f hkind (total st1.newFields)).1
  change Sound packed (placed 0 (st1.newFields ++ [_])) at hsound
  rw [placed_concat, hp, sound_concat_iff] at hsound
  obtain ⟨-, -, haligned, hbehind⟩ := hsound
  cases bits with
  | true =>
    -- The field starts at the pending bits.
    have hbit := h.runs.bits_iff.mp rfl
    have hlast := hsync.lastStop_eq
    unfold bitPos at hpos
    obtain ⟨q, hq, hstop⟩ := @exists_stop_eq_lastStop (placed 0 st.newFields) (by omega)
    have hplaced := h.gap.placed_eq
    have hle : q.stop ≤ 8 * total st1.newFields := hbehind q (hplaced ▸ hq)
    omega
  | false =>
    have hnobit := h.runs.bitOffset_eq_zero
    have hdvd : 8 * f.finalAlign.toNat ∣ 8 * total st1.newFields := haligned hpacked hkind
    apply hnot rfl
    rw [hsum, hdyn hpacked, Nat.add_zero, hbyte] at hdvd
    rw [bitPos, hnobit] at hpos
    have hceil : ceil8 pos = st.byteOffset.toNat := by
      unfold ceil8
      omega
    rw [hceil]
    exact Nat.dvd_of_mul_dvd_mul_left (by omega) hdvd

end

variable {cur : ℕ} (hcur : bitPos st.byteOffset st.bitOffset = cur)
  (hbound : cur + 8 * f.extent < 2 ^ 62)

include hruns hprev hcur hbound in
/-- Laying out a field that is no bitfield is a step. -/
lemma step_plain (hkind : f.kind.isBitfield = false) :
    ∃ st', layoutField structName packed prev st f = .ok st' ∧ Step packed st bits f st' := by
  have hbytes : 8 * st.byteOffset.toNat ≤ cur := hcur ▸ byteOffset_le_bitPos
  have hceil := le_ceil8 cur
  rw [extent_plain hkind] at hbound
  obtain ⟨place, hplace, hbit, hfo⟩ := placeField_plain hkind packed hcur (by omega)
  have hfo_le : place.fieldOffset.toNat ≤ ceil8 cur + f.finalAlign.toNat := by
    split at hfo
    · omega
    · rw [hfo]
      apply Nat.le_of_lt
      cases packed with
      | true =>
        simp only [if_true, alignUp_one]
        have := f.isAlign.pos
        omega
      | false => exact alignUp_lt f.isAlign.pos _
  obtain ⟨st1, hst1, halign, hgap⟩ :=
    @layoutField_of_place packed st bits place structName prev f hruns hprev (by omega) (.inl hbit)
      hplace
  have hbyte := hgap.byteOffset_eq
  have hbits := hgap.bitOffset_eq
  rw [if_pos hbit] at hbits
  have hadd : (st1.byteOffset + f.kind.typeSize).toNat =
      st1.byteOffset.toNat + f.kind.typeSize.toNat := by
    rw [toNat_add, Nat.mod_eq_of_lt (by omega)]
  have hadded : PlainAdded packed st st1 bits place f := by
    refine ⟨hruns, hgap, hbits, ?_, hadd⟩
    rw [hbyte, hcur]
    split at hfo
    · rename_i hunknown
      rw [if_pos hunknown, hfo]
    · rename_i hknown
      rw [if_neg hknown, hfo]
  rw [addField_plain hkind] at hst1
  refine ⟨_, hst1, ⟨?_, ?_, ?_, halign, hgap.extends _, fun dyn pos => hadded.synced hkind,
    fun dyn pos => hadded.not_sound hkind⟩⟩
  · rw [hkind]
    intro h
    cases h
  · show f.kind.isBitfield = true ↔ 0 < st1.bitOffset.toNat
    rw [hkind, hbits]
    decide
  · show 8 * (st1.byteOffset + f.kind.typeSize).toNat + st1.bitOffset.toNat ≤ _
    rw [hadd, hbits, hbyte, extent_plain hkind, toNat_zero]
    omega

/-! ## Bitfields -/

/-- What `addField` adds for a bitfield. -/
def bitfieldOut (f : Field) (st : LayoutState) (place : Place) : OutField :=
  { field := some f
    typeSize := f.kind.typeSize
    bitfieldOff := place.fieldBitOffset
    bitfieldUnitOff :=
      if place.fieldOffset < st.byteOffset then st.byteOffset - place.fieldOffset else 0 }

section

variable (hkind : f.kind = .bitfield unit length)

include hkind

lemma addField_bitfield (st : LayoutState) (place : Place) :
    addField f st place =
      { st with
        newFields := st.newFields ++ [bitfieldOut f st place]
        bitOffset := st.bitOffset + length } := by
  unfold addField
  simp only [bitfieldOut, hkind]

/-- Where the entry of a bitfield puts its bits. -/
lemma placed_bitfield {st : LayoutState}
    {place : Place} {dyn : ℕ} (hle : place.fieldOffset.toNat ≤ st.byteOffset.toNat) :
    (bitfieldOut f st place).placed (st.byteOffset.toNat + dyn) =
      { field := some f
        bitfieldOff := place.fieldBitOffset.toNat
        start := 8 * place.fieldOffset.toNat + place.fieldBitOffset.toNat + 8 * dyn
        stop := 8 * place.fieldOffset.toNat + place.fieldBitOffset.toNat + length.toNat +
          8 * dyn } ∧
      (bitfieldOut f st place).size = 0 := by
  have hunit : st.byteOffset.toNat + dyn - (bitfieldOut f st place).bitfieldUnitOff.toNat =
      place.fieldOffset.toNat + dyn := by
    show _ - (if place.fieldOffset < st.byteOffset then _ else (0 : UInt64)).toNat = _
    split
    · rw [toNat_sub_of_le _ _ (UInt64.le_iff_toNat_le.mpr hle)]
      omega
    · rename_i hlt
      rw [lt_iff_toNat_lt] at hlt
      rw [toNat_zero]
      omega
  constructor
  · unfold OutField.placed
    simp only [bitfieldOut, Option.map_some, hkind] at hunit ⊢
    simp only [Placed.mk.injEq, true_and]
    omega
  · simp [OutField.size, bitfieldOut, hkind, FieldKind.typeSize]

lemma lastBitfield_of_add (fields : List OutField)
    (st : LayoutState) (place : Place) : LastBitfield (fields ++ [bitfieldOut f st place]) := by
  refine ⟨fields, _, rfl, ?_, unit, length, ?_⟩
  · simp [bitfieldOut, hkind, FieldKind.typeSize]
  · simp [bitfieldOut, hkind]

omit hkind in
/-- The position after a bitfield, and its place behind the position. -/
structure BitfieldAdded (st st1 : LayoutState) (place : Place) (pos : ℕ) : Prop where
  offset_le : place.fieldOffset.toNat ≤ st1.byteOffset.toNat
  le_offset : st.byteOffset.toNat ≤ st1.byteOffset.toNat
  pos_eq : bitPos st1.byteOffset st1.bitOffset = pos
  start_le : 8 * st1.byteOffset.toNat ≤ pos
  pos_le : bitPos st.byteOffset st.bitOffset ≤ pos

/-- Once a bitfield is added, what is left is the comparison of positions. -/
lemma step_bitfield_of_added {start : ℕ} (hruns : Runs st bits)
    (hcur : bitPos st.byteOffset st.bitOffset = cur)
    (halign : st1.structAlign = if packed then st.structAlign else max st.structAlign f.align)
    (hgap : GapClosed st bits place st1) (hadded : BitfieldAdded st st1 place start)
    (hstart : start + length.toNat ≤ cur + 8 * f.extent)
    (hbound : start + length.toNat < 2 ^ 63)
    (hlays : f.Lays packed bits cur →
      8 * place.fieldOffset.toNat + place.fieldBitOffset.toNat = start ∧
      f.startPos packed cur = start ∧
      place.fieldBitOffset.toNat + length.toNat ≤ 8 * unit.toNat)
    (hnot : ¬ f.Lays packed bits cur → 8 * unit.toNat < place.fieldBitOffset.toNat + length.toNat) :
    Step packed st bits f (addField f st1 place) := by
  have hlen : 0 < length.toNat := by
    have hok := f.kind_ok
    rw [hkind] at hok
    exact hok.2.1
  have hadd : (st1.bitOffset + length).toNat = st1.bitOffset.toNat + length.toNat := by
    have hpos := hadded.pos_eq
    unfold bitPos at hpos
    rw [toNat_add, Nat.mod_eq_of_lt (by omega)]
  have hisBitfield : f.kind.isBitfield = true := by rw [hkind]; rfl
  have hpos := hadded.pos_eq
  unfold bitPos at hpos
  rw [addField_bitfield hkind]
  refine ⟨fun _ => lastBitfield_of_add hkind _ _ _, ?_, ?_, halign, hgap.extends _, ?_, ?_⟩
  · show _ ↔ 0 < (st1.bitOffset + length).toNat
    rw [hadd, hisBitfield]
    exact iff_of_true rfl (by omega)
  · show 8 * st1.byteOffset.toNat + (st1.bitOffset + length).toNat ≤ _
    omega
  · intro dyn pos hdyn hsync hl
    obtain ⟨hsound, hsum, hstops⟩ := hsync.gap hruns hgap
    obtain ⟨hp, hsize⟩ := @placed_bitfield unit length f hkind st1 place dyn hadded.offset_le
    obtain rfl : cur = pos := hcur.symm.trans hsync.pos_eq
    obtain ⟨hplace, hstartPos, hunit⟩ := hlays hl
    have hbit : f.bitSize = length.toNat := by simp [bitSize, hkind]
    have hdynSize : f.dynSize = 0 := by simp [dynSize, hkind]
    have hle := hadded.pos_le
    rw [← hsum] at hp
    refine synced_of_add hsound rfl rfl hp ?_ ?_ ?_ ?_ ?_ ?_ ?_
    · simpa [Placed.InUnit, hkind] using hunit
    · intro _ hno
      rw [hisBitfield] at hno
      cases hno
    · intro q hq
      have hq' := hstops q hq
      show q.stop ≤ 8 * place.fieldOffset.toNat + place.fieldBitOffset.toNat + 8 * dyn
      omega
    · dsimp only
      omega
    · dsimp only
      omega
    · show 8 * st1.byteOffset.toNat + (st1.bitOffset + length).toNat = _
      rw [hadd]
      omega
    · show total (st1.newFields ++ [_]) = st1.byteOffset.toNat + _
      rw [total_concat, hsize]
      omega
  · intro dyn pos hdyn hsync hl hsound
    have hsum := (hsync.gap hruns hgap).2.1
    obtain ⟨hp, -⟩ := @placed_bitfield unit length f hkind st1 place dyn hadded.offset_le
    obtain rfl : cur = pos := hcur.symm.trans hsync.pos_eq
    change Sound packed (placed 0 (st1.newFields ++ [_])) at hsound
    rw [placed_concat, hsum, hp, sound_concat_iff] at hsound
    have hunit := hsound.2.1
    simp only [Placed.InUnit, Option.map_some, hkind] at hunit
    have := hnot hl
    omega

end

lemma placeField_bitfield (hkind : f.kind = .bitfield unit length) (byteOffset bitOffset : UInt64) :
    placeField packed f byteOffset bitOffset =
      placeBitfield packed unit length byteOffset bitOffset := by
  unfold placeField
  rw [hkind]

section

variable (hkind : f.kind = .bitfield unit length)

include hruns hprev hcur hbound hkind

/-- A bitfield that fits goes on in the unit of the bits before it. -/
lemma step_bitfield_of_fits (hfits : Fits packed unit length cur) :
    ∃ st', layoutField structName packed prev st f = .ok st' ∧ Step packed st bits f st' := by
  obtain ⟨hunit, hlen, hlen_le⟩ : FieldKind.Ok (.bitfield unit length) := hkind ▸ f.kind_ok
  obtain ⟨hua, hua_le, hunit_le, -⟩ := @unitAlign_spec packed unit hunit
  have hextent : f.extent = 2 * unit.toNat + 1 := by simp [extent, hkind]
  have hbytes : 8 * st.byteOffset.toNat ≤ cur := hcur ▸ byteOffset_le_bitPos
  obtain ⟨place, hplace, hstart, hin, hbits⟩ :=
    placeBitfield_fits hunit hcur (by omega) hlen hfits
  obtain ⟨st1, hst1, halign, hgap⟩ :=
    @layoutField_of_place packed st bits place structName prev f hruns hprev
      (by omega) (by
        rcases hbits with hbits | hbits
        · exact .inr ⟨hbits, by omega⟩
        · exact .inl hbits.2) ((placeField_bitfield hkind _ _).trans hplace)
  have hbyte := hgap.byteOffset_eq
  have hpos1 : bitPos st1.byteOffset st1.bitOffset = cur := by
    have hbit1 := hgap.bitOffset_eq
    split at hbit1
    · rename_i hzero
      -- No bit is pending at the position, so it is the offset of the unit.
      have heq : 8 * place.fieldOffset.toNat = cur ∨ st.bitOffset = 0 := by
        rcases hbits with hbits | hbits
        · exact .inr (hbits ▸ hzero)
        · exact .inl hbits.1
      have hb1 : bitPos st1.byteOffset st1.bitOffset = 8 * st1.byteOffset.toNat := by
        rw [bitPos, hbit1]
        rfl
      rcases heq with heq | heq
      · omega
      · have hpos : cur = 8 * st.byteOffset.toNat := by
          rw [← hcur, bitPos, heq]
          rfl
        omega
    · exact hbit1.trans hcur
  refine ⟨_, hst1, step_bitfield_of_added hkind hruns hcur halign hgap
    ⟨by omega, by omega, hpos1, ?_, hcur.le⟩ (by omega) (by omega) ?_ ?_⟩
  · rw [← hpos1]
    exact byteOffset_le_bitPos
  · intro _
    refine ⟨hstart, ?_, hin⟩
    simp [startPos, hkind, hfits]
  · intro hnot
    refine absurd ?_ hnot
    simp only [Field.Lays, hkind]
    exact .inl hfits

/-- A bitfield that does not fit opens a new unit. -/
lemma step_bitfield_of_not_fits (hfits : ¬ Fits packed unit length cur) :
    ∃ st', layoutField structName packed prev st f = .ok st' ∧ Step packed st bits f st' := by
  obtain ⟨hunit, hlen, hlen_le⟩ : FieldKind.Ok (.bitfield unit length) := hkind ▸ f.kind_ok
  obtain ⟨hua, hua_le, hunit_le, -⟩ := @unitAlign_spec packed unit hunit
  have hextent : f.extent = 2 * unit.toNat + 1 := by simp [extent, hkind]
  have hbytes : 8 * st.byteOffset.toNat ≤ cur := hcur ▸ byteOffset_le_bitPos
  obtain ⟨place, hplace, hfo, hmod, hbits_lt, hbit⟩ :=
    placeBitfield_not_fits hunit hcur (by omega) hlen_le hfits
  have hfo_ge := le_alignUp hua (ceil8 cur)
  have hfo_lt := alignUp_lt hua (ceil8 cur)
  rw [← hfo] at hfo_ge hfo_lt
  have hceil := le_ceil8 cur
  obtain ⟨st1, hst1, halign, hgap⟩ :=
    @layoutField_of_place packed st bits place structName prev f hruns hprev
      (by omega) (.inl hbit) ((placeField_bitfield hkind _ _).trans hplace)
  have hbyte := hgap.byteOffset_eq
  have hbit1 := hgap.bitOffset_eq
  rw [if_pos hbit] at hbit1
  have hmax : st1.byteOffset.toNat = place.fieldOffset.toNat := by omega
  -- The place in the unit is 0 exactly if the offset is a multiple of the unit.
  have hlays_iff : f.Lays packed bits cur ↔ unit.toNat ∣ place.fieldOffset.toNat := by
    simp only [Field.Lays, hkind, hfits, false_or]
    rw [hfo]
    unfold unitAlign
    cases packed with
    | true => simp
    | false => simp [dvd_alignUp]
  have hadded : BitfieldAdded st st1 place (8 * place.fieldOffset.toNat) := by
    refine ⟨by omega, by omega, ?_, by omega, by omega⟩
    rw [bitPos, hbit1, toNat_zero, hmax]
    omega
  refine ⟨_, hst1, step_bitfield_of_added hkind hruns hcur halign hgap hadded
    (by omega) (by omega) ?_ ?_⟩
  · intro hlays
    obtain ⟨q, hq⟩ := hlays_iff.mp hlays
    have hzero : place.fieldBitOffset.toNat = 0 := by
      rw [hq, ← Nat.mul_assoc, Nat.mul_add_mod] at hmod
      rw [Nat.mod_eq_of_lt hbits_lt] at hmod
      exact hmod
    refine ⟨by omega, ?_, by omega⟩
    simp only [startPos, hkind, hfits, if_false]
    rw [hfo]
  · intro hnot
    rw [hlays_iff] at hnot
    -- The place is a positive multiple of 8, and the bitfield was too long for 7 bits less.
    have hne : place.fieldBitOffset.toNat ≠ 0 := by
      intro hzero
      rw [hzero, Nat.add_zero, Nat.mul_mod_mul_left] at hmod
      exact hnot (Nat.dvd_of_mod_eq_zero (by omega))
    have hdvd : 8 ∣ 8 * place.fieldOffset.toNat + place.fieldBitOffset.toNat :=
      (Nat.dvd_mul_right 8 unit.toNat).trans (Nat.dvd_of_mod_eq_zero hmod)
    have hlong : 8 * unit.toNat < cur % (8 * unitAlign packed unit) + length.toNat := by
      unfold Fits at hfits
      omega
    have hpacked : packed = true := by
      by_contra hp
      rw [Bool.not_eq_true] at hp
      apply hnot
      rw [hfo, unitAlign, hp]
      exact dvd_alignUp _ _
    rw [unitAlign, hpacked, if_pos rfl] at hlong
    omega

/-- Laying out a bitfield is a step. -/
lemma step_bitfield :
    ∃ st', layoutField structName packed prev st f = .ok st' ∧ Step packed st bits f st' := by
  by_cases hfits : Fits packed unit length cur
  · exact step_bitfield_of_fits hruns hprev hcur hbound hkind hfits
  · exact step_bitfield_of_not_fits hruns hprev hcur hbound hkind hfits

end

include hruns hprev hcur hbound in
lemma layoutField_spec :
    ∃ st', layoutField structName packed prev st f = .ok st' ∧ Step packed st bits f st' := by
  cases hkind : f.kind with
  | fixed size | varlen size => exact step_plain hruns hprev hcur hbound (by rw [hkind]; rfl)
  | bitfield unit length => exact step_bitfield hruns hprev hcur hbound hkind

/-! ## All fields -/

/-- The condition for a list of fields. -/
def LaysFrom (packed : Bool) : Bool → ℕ → List Field → Prop
  | _, _, [] => True
  | bits, pos, f :: fields =>
    f.Lays packed bits pos ∧
      LaysFrom packed f.kind.isBitfield (f.startPos packed pos + f.bitSize) fields

/-- The position behind a list of fields. -/
def endPos (packed : Bool) : ℕ → List Field → ℕ
  | pos, [] => pos
  | pos, f :: fields => endPos packed (f.startPos packed pos + f.bitSize) fields

/-- An upper bound for the size of a list of fields. -/
def extents (fields : List Field) : ℕ := (fields.map Field.extent).sum

lemma extents_cons (f : Field) (fields : List Field) :
    extents (f :: fields) = f.extent + extents fields := by
  simp [extents]

/-- The bytes of the fields without a static size. -/
def dynSizes (fields : List Field) : ℕ := (fields.map Field.dynSize).sum

include hruns hprev in
/-- The loop does not fail, and keeps what is placed. Whether its result is sound is decided by the
condition. -/
lemma layoutLoop_spec {fields : List Field}
    (hbound : bitPos st.byteOffset st.bitOffset + 8 * extents fields < 2 ^ 62) :
    ∃ st' bits', layoutLoop structName packed prev st fields = .ok st' ∧ Runs st' bits' ∧
      st'.structAlign = (if packed then st.structAlign
        else fields.foldl (fun align f => max align f.align) st.structAlign) ∧
      placed 0 st.newFields <+: placed 0 st'.newFields ∧
      ∀ dyn pos, (packed = false → fields ≠ [] →
        dyn = 0 ∧ ∀ f ∈ fields.dropLast, f.kind.isVarlen = false) → Synced packed st dyn pos →
        (LaysFrom packed bits pos fields →
          Synced packed st' (dyn + dynSizes fields) (endPos packed pos fields)) ∧
        (¬ LaysFrom packed bits pos fields → ¬ Sound packed (placed 0 st'.newFields)) := by
  induction fields generalizing st bits prev with
  | nil =>
    refine ⟨st, bits, rfl, hruns, by simp, prefix_rfl, fun dyn pos _ hsync => ?_⟩
    exact ⟨fun _ => hsync, fun hnot => absurd trivial hnot⟩
  | cons f fields ih =>
    rw [extents_cons] at hbound
    obtain ⟨st1, hst1, hstep⟩ := @layoutField_spec packed st bits structName prev f hruns hprev
      _ rfl (by omega)
    have hle := hstep.pos_le
    obtain ⟨st', bits', hst', hruns', halign, hkeep, hrest⟩ := @ih st1 f.kind.isBitfield (some f)
      ⟨hstep.last, hstep.bits_iff, by omega⟩ rfl (by omega)
    refine ⟨st', bits', ?_, hruns', ?_, hstep.keeps_placed.trans hkeep, fun dyn pos hdyn hsync => ?_⟩
    · show layoutField _ _ _ _ _ >>= _ = _
      rw [hst1]
      exact hst'
    · rw [halign, hstep.structAlign_eq]
      cases packed <;> rfl
    have hzero : packed = false → dyn = 0 := fun hp => (hdyn hp (cons_ne_nil f fields)).1
    by_cases hlays : f.Lays packed bits pos
    · -- A field without a static size is the last one.
      have hdyn1 : packed = false → fields ≠ [] →
          dyn + f.dynSize = 0 ∧ ∀ g ∈ fields.dropLast, g.kind.isVarlen = false := by
        intro hp hne
        have hfixed := (hdyn hp (cons_ne_nil f fields)).2
        rw [dropLast_cons_of_ne_nil hne, forall_mem_cons] at hfixed
        refine ⟨?_, hfixed.2⟩
        rw [hzero hp, dynSize]
        cases hk : f.kind with
        | varlen size =>
          rw [hk] at hfixed
          cases hfixed.1
        | fixed size => rfl
        | bitfield unit length => rfl
      obtain ⟨hsynced, hnot⟩ := hrest _ _ hdyn1 (hstep.synced dyn pos hzero hsync hlays)
      refine ⟨fun hl => ?_, fun hl => hnot fun hrest => hl ⟨hlays, hrest⟩⟩
      simpa [dynSizes, endPos, Nat.add_assoc] using hsynced hl.2
    · -- What is wrong stays wrong.
      refine ⟨fun hl => absurd hl.1 hlays, fun _ hsound => ?_⟩
      exact hstep.not_sound dyn pos hzero hsync hlays (hsound.mono hkeep)

/-! ## The end of a part -/

/-- At the end an open run of bitfields is rounded up to bytes. -/
lemma finishBits_spec (hruns : Runs st bits) :
    ∃ st', finishBits st = .ok st' ∧ st'.structAlign = st.structAlign ∧
      st'.byteOffset.toNat = st.byteOffset.toNat + ceil8 st.bitOffset.toNat ∧
      total st'.newFields = total st.newFields + ceil8 st.bitOffset.toNat ∧
      placed 0 st'.newFields = placed 0 st.newFields := by
  have hbound := hruns.bound
  unfold bitPos at hbound
  unfold finishBits
  by_cases hzero : st.bitOffset = 0
  · rw [if_neg (not_not_intro hzero)]
    refine ⟨st, rfl, rfl, ?_, ?_, rfl⟩
    · rw [hzero]
      rfl
    · rw [hzero]
      rfl
  · have hlast := hruns.last (hruns.bits_iff.mpr (toNat_pos_of_ne hzero))
    obtain ⟨r, hr, hnat⟩ := @roundup_bytes _ st.bitOffset rfl (by omega)
    obtain ⟨hplaced, htotal⟩ := setLast_spec hlast (r / 8)
    have hisLast : (st.newFields.getLast?.any fun f => f.field.any (·.kind.isBitfield)) = true := by
      obtain ⟨init, o, heq, -, unit, length, hkind⟩ := hlast
      rw [heq]
      cases hfield : o.field with
      | none =>
        rw [hfield] at hkind
        cases hkind
      | some f =>
        rw [hfield] at hkind
        simp only [Option.map_some, Option.some.injEq] at hkind
        simp [hfield, hkind, FieldKind.isBitfield]
    rw [if_pos hzero, hr]
    refine ⟨_, if_pos hisLast, rfl, ?_, ?_, hplaced⟩
    · show (st.byteOffset + r / 8).toNat = _
      rw [toNat_add, hnat, Nat.mod_eq_of_lt]
      unfold ceil8
      omega
    · rw [← hnat]
      exact htotal

/-- The alignment of a part of a struct. -/
def StructDesc.structAlign (t : StructDesc) (fields : List Field) : UInt64 :=
  if t.alignAttr ≠ 0 then t.alignAttr
  else if t.packed then 0 else fields.foldl (fun (a : UInt64) f => max a f.align) 0

/-- What a part should look like: its fields are sound, and its size is the aligned end of the last
field. -/
structure SoundPart (t : StructDesc) (fields : List Field) (outs : List OutField) : Prop where
  sound : Sound t.packed (placed 0 outs)
  total_eq : total outs =
    if t.varlen then ceil8 (lastStop (placed 0 outs))
    else alignUp (max 1 (t.structAlign fields).toNat) (ceil8 (lastStop (placed 0 outs)))

/-- The padding is behind the last field, and makes the size a multiple of the alignment. -/
lemma padEnd_spec {varlen : Bool} {a : UInt64} {end_ : ℕ} (htotal : total st.newFields = ceil8 end_)
    (hbyte : varlen = false → st.byteOffset.toNat = ceil8 end_) :
    total (padEnd varlen a st) =
      (if varlen then ceil8 end_ else alignUp (max 1 a.toNat) (ceil8 end_)) ∧
    (placed 0 (padEnd varlen a st) = placed 0 st.newFields ∨
      ∃ pad : Placed, placed 0 (padEnd varlen a st) = placed 0 st.newFields ++ [pad] ∧
        pad.field = none ∧ pad.start = 8 * ceil8 end_) := by
  unfold padEnd
  by_cases hpad : varlen = false ∧ a ≠ 0 ∧ st.byteOffset % a ≠ 0
  · rw [if_pos hpad]
    obtain ⟨hvarlen, hne, hmod⟩ := hpad
    have hpos := toNat_pos_of_ne hne
    have hmodnat : (st.byteOffset % a).toNat = ceil8 end_ % a.toNat := by
      rw [toNat_mod, hbyte hvarlen]
    have hnot : ¬ a.toNat ∣ ceil8 end_ := by
      intro hdvd
      apply hmod
      rw [← UInt64.toNat_inj, hmodnat, Nat.mod_eq_zero_of_dvd hdvd, toNat_zero]
    have hlt := Nat.mod_lt (ceil8 end_) hpos
    refine ⟨?_, .inr ⟨_, placed_concat _ _, rfl, congrArg (8 * ·) htotal⟩⟩
    · rw [total_concat, htotal, hvarlen, if_neg (by decide), Nat.max_eq_right hpos,
        alignUp_of_not_dvd hpos hnot]
      show _ + (a - st.byteOffset % a).toNat = _
      rw [toNat_sub_of_le, hmodnat]
      rw [le_iff_toNat_le, hmodnat]
      omega
  · rw [if_neg hpad]
    refine ⟨?_, .inl rfl⟩
    rw [htotal]
    split
    · rfl
    · rename_i hvarlen
      rw [Bool.not_eq_true] at hvarlen
      symm
      apply alignUp_of_dvd (by omega)
      -- Either there is no alignment, or the end is a multiple of it.
      by_cases hzero : a = 0
      · rw [hzero]
        exact Nat.one_dvd _
      · have hmod : st.byteOffset % a = 0 := by
          by_contra hmod
          exact hpad ⟨hvarlen, hzero, hmod⟩
        rw [Nat.max_eq_right (toNat_pos_of_ne hzero), ← hbyte hvarlen]
        apply Nat.dvd_of_mod_eq_zero
        rw [← toNat_mod, hmod, toNat_zero]

/-- The end of the layout keeps the fields where they are. -/
lemma finalize_spec {t : StructDesc} {fields : List Field} (hruns : Runs st bits)
    (halign : st.structAlign =
      if t.packed then 0 else fields.foldl (fun (a : UInt64) f => max a f.align) 0) :
    ∃ outs, finalizeStructFields t.varlen t.alignAttr st = .ok outs ∧
      (Sound t.packed (placed 0 outs) → Sound t.packed (placed 0 st.newFields)) ∧
      ∀ dyn pos, Synced t.packed st dyn pos → (t.varlen = false → dyn = 0) →
        SoundPart t fields outs := by
  obtain ⟨st1, hst1, halign1, hbyte, htotal, hplaced⟩ := finishBits_spec hruns
  have heq : finalizeStructFields t.varlen t.alignAttr st =
      .ok (padEnd t.varlen (t.structAlign fields) st1) := by
    unfold finalizeStructFields StructDesc.structAlign
    rw [hst1, ← halign, ← halign1]
    rfl
  refine ⟨_, heq, fun hsound => ?_, fun dyn pos hsync hdyn => ?_⟩
  · apply hsound.mono
    rw [← hplaced]
    unfold padEnd
    split
    · rw [placed_append]
      exact prefix_append _ _
    · exact prefix_rfl
  · have hpos := hsync.pos_eq
    have hsum := hsync.total_eq
    unfold bitPos at hpos
    obtain ⟨htotal', hplaced'⟩ :=
      @padEnd_spec st1 t.varlen (t.structAlign fields) (pos + 8 * dyn) (by unfold ceil8 at *; omega)
        (fun hvarlen => by
          have := hdyn hvarlen
          unfold ceil8 at *
          omega)
    rw [hplaced] at hplaced'
    have hlast := hsync.lastStop_eq
    rcases hplaced' with hplaced' | ⟨pad, hplaced', hnone, hstart⟩
    · refine ⟨?_, ?_⟩
      · rw [hplaced']
        exact hsync.sound
      · rw [hplaced', hlast]
        exact htotal'
    · refine ⟨?_, ?_⟩
      · rw [hplaced']
        refine hsync.sound.concat_pad hnone fun q hq => ?_
        have hstop := hsync.stop_le q hq
        have hceil := le_ceil8 (pos + 8 * dyn)
        omega
      · have hno : ¬ pad.field.isSome = true := by
          rw [hnone]
          decide
        rw [hplaced', lastStop_concat, if_neg hno, hlast]
        exact htotal'

/-! ## Structs -/

variable {fields : List Field} {t : StructDesc}

/-- The layout is sound exactly if every field is put where it should be. -/
lemma layoutPart_spec (hsize : extents fields < 2 ^ 58)
    (hlast : t.packed = false → ∀ f ∈ fields.dropLast, f.kind.isVarlen = false)
    (hvarlen : t.varlen = false → dynSizes fields = 0) :
    ∃ outs, layoutPart t fields = .ok outs ∧
      (SoundPart t fields outs ↔ LaysFrom t.packed false 0 fields) := by
  have hruns : Runs LayoutState.init false := by
    refine ⟨?_, by decide, by decide⟩
    intro h
    cases h
  have hinit : bitPos LayoutState.init.byteOffset LayoutState.init.bitOffset = 0 := rfl
  have hsync : Synced t.packed LayoutState.init 0 0 := by
    refine ⟨rfl, rfl, ⟨?_, ?_, Pairwise.nil⟩, ?_, rfl⟩
    · intro p hp
      cases hp
    · intro _ p hp
      cases hp
    · intro p hp
      cases hp
  obtain ⟨st, bits, hst, hruns', halign, -, hloop⟩ :=
    @layoutLoop_spec t.packed .init false t.name none hruns rfl fields (by omega)
  obtain ⟨hsynced, hnot⟩ := hloop 0 0 (fun hp _ => ⟨rfl, hlast hp⟩) hsync
  obtain ⟨outs, houts, hback, hsoundPart⟩ := @finalize_spec st bits t fields hruns' halign
  refine ⟨outs, ?_, fun hsound => ?_, fun hlays => ?_⟩
  · unfold layoutPart
    rw [hst]
    exact houts
  · by_contra hlays
    exact hnot hlays (hback hsound.sound)
  · refine hsoundPart _ _ (hsynced hlays) fun hv => ?_
    rw [hvarlen hv]

/-- The parts of a struct that are laid out on their own. -/
def StructDesc.parts (t : StructDesc) : List (List Field) :=
  match t.overlayField with
  | none => [t.fields]
  | some k => [t.fields.take k, t.fields.drop k]

/-- The parts of the result. -/
def outParts (outs : List OutField) : Option ℕ → List (List OutField)
  | none => [outs]
  | some k => [outs.take k, outs.drop k]

/-- Sizes and alignments are so small that no number of the pass overflows. -/
def StructDesc.Small (t : StructDesc) : Prop := extents t.fields < 2 ^ 58

/-- A struct of fixed size has no parts of variable size. -/
lemma dynSizes_eq_zero (hsub : fields ⊆ t.fields) (hvarlen : t.varlen = false) :
    dynSizes fields = 0 := by
  unfold dynSizes
  rw [List.sum_eq_zero_iff_forall_eq_nat]
  refine forall_mem_map.mpr fun f hf => ?_
  have hnot : ¬ f.kind.isVarlen = true := fun h => by
    have hany : t.varlen = true := any_eq_true.mpr ⟨f, hsub hf, h⟩
    rw [hany] at hvarlen
    cases hvarlen
  unfold dynSize
  split
  · rename_i hkind
    rw [hkind] at hnot
    exact absurd rfl hnot
  · rfl

/-- A part of a struct is laid out without an overflow. -/
lemma layoutPart_of_sublist (hsize : t.Small) (hsub : fields.Sublist t.fields)
    (hlast : fields.dropLast ⊆ t.fields.dropLast) :
    ∃ outs, layoutPart t fields = .ok outs ∧
      (SoundPart t fields outs ↔ LaysFrom t.packed false 0 fields) :=
  layoutPart_spec
    (lt_of_le_of_lt ((hsub.map extent).sum_le_sum fun _ _ => Nat.zero_le _) hsize)
    (fun hp f hf => t.varlen_last hp f (hlast hf))
    (dynSizes_eq_zero hsub.subset)

/-- The pass does not fail, and its result is sound if and only if every bitfield of a packed
struct fits where it is or goes to a multiple of its unit, and no field with an unknown alignment
follows a bitfield or is at a place that its alignment does not allow. -/
theorem layoutStructFields_sound_iff (t : StructDesc) (hsize : t.Small) :
    ∃ outs overlayField, layoutStructFields t = .ok (outs, overlayField) ∧
      (List.Forall₂ (SoundPart t) t.parts (outParts outs overlayField) ↔
        ∀ fields ∈ t.parts, LaysFrom t.packed false 0 fields) := by
  unfold layoutStructFields StructDesc.parts
  cases hoverlay : t.overlayField with
  | none =>
    obtain ⟨outs, houts, hiff⟩ :=
      layoutPart_of_sublist hsize (Sublist.refl t.fields) (Subset.refl _)
    refine ⟨outs, none, ?_, ?_⟩
    · rw [houts]
      rfl
    · simp [outParts, hiff]
  | some k =>
    obtain ⟨-, hk⟩ := t.overlay_ok k hoverlay
    obtain ⟨outs, houts, hiff⟩ := layoutPart_of_sublist hsize (take_sublist k t.fields) (by
      rw [dropLast_eq_take, dropLast_eq_take, take_take]
      exact take_subset_take_left _ (by rw [length_take]; omega))
    obtain ⟨outs', houts', hiff'⟩ := layoutPart_of_sublist hsize (drop_sublist k t.fields) (by
      rw [dropLast_drop_eq_drop_dropLast]
      exact drop_subset _ _)
    refine ⟨outs ++ outs', some outs.length, ?_, ?_⟩
    · dsimp only
      rw [houts, houts']
      rfl
    · simp [outParts, hiff, hiff']

/-! ### Some structs -/

/-- `name int32:length` -/
def int32Bits (name : String) (length : UInt64) (h : 0 < length.toNat ∧ length.toNat ≤ 32) :
    Field where
  name := name
  kind := .bitfield 4 length
  align := 4
  finalAlign := 4
  kind_ok := ⟨by decide, h⟩
  isAlign := ⟨2, by decide, by decide⟩
  align_eq := .inl rfl

/-- `name array[s]` in `s` itself, with elements of `size` bytes. -/
def selfArray (name : String) (size : ℕ) : Field where
  name := name
  kind := .varlen size
  align := 0
  finalAlign := 4
  kind_ok := trivial
  isAlign := ⟨2, by decide, by decide⟩
  align_eq := .inr ⟨rfl, rfl⟩

/-- Two bitfields of 4 and 30 bits. -/
def twoBitfields (packed : Bool) : StructDesc where
  name := "s"
  fields := [int32Bits "a" 4 (by decide), int32Bits "b" 30 (by decide)]
  packed := packed
  alignAttr := 0
  overlayField := none
  align_ok := .inl rfl
  varlen_last _ f hf := by
    cases mem_singleton.mp hf
    rfl
  overlay_ok k hk := by cases hk

/-- `s { a int32:8  b array[s] }` -/
def bitsAndArray : StructDesc where
  name := "s"
  fields := [int32Bits "a" 8 (by decide), selfArray "b" 12]
  packed := false
  alignAttr := 0
  overlayField := none
  align_ok := .inl rfl
  varlen_last _ f hf := by
    cases mem_singleton.mp hf
    rfl
  overlay_ok k hk := by cases hk

/-- Without `packed` the second bitfield goes to the next unit. -/
theorem layoutStructFields_twoBitfields :
    (twoBitfields false).Small ∧
      ∃ outs overlayField,
        layoutStructFields (twoBitfields false) = .ok (outs, overlayField) ∧
        List.Forall₂ (SoundPart (twoBitfields false)) (twoBitfields false).parts
          (outParts outs overlayField) := by
  have hsmall : (twoBitfields false).Small := by
    unfold StructDesc.Small
    decide
  obtain ⟨outs, overlayField, houts, hiff⟩ := layoutStructFields_sound_iff _ hsmall
  refine ⟨hsmall, outs, overlayField, houts, hiff.mpr ?_⟩
  intro fields hfields
  cases mem_singleton.mp hfields
  exact ⟨.inl (by decide), .inr (.inl rfl), trivial⟩

/-- In a packed struct the second bitfield gets the bits from 24 to 54 of its unit of 32 bits; and
an array of the struct itself starts at the first bit of a bitfield. -/
theorem layoutStructFields_overlap :
    (∃ outs, layoutStructFields (twoBitfields true) = .ok (outs, none) ∧
      (placed 0 outs).map (fun p => (p.bitfieldOff, p.start, p.stop)) = [(0, 0, 4), (24, 32, 62)] ∧
      ¬ Sound true (placed 0 outs)) ∧
    ∃ outs, layoutStructFields bitsAndArray = .ok (outs, none) ∧
      (placed 0 outs).map (fun p => (p.start, p.stop)) = [(0, 8), (0, 96)] ∧
      ¬ Sound false (placed 0 outs) := by
  refine ⟨⟨_, rfl, rfl, fun h => ?_⟩, ⟨_, rfl, rfl, fun h => ?_⟩⟩
  · have hunit : 24 + 30 ≤ 32 := h.inUnit _ (mem_cons_of_mem _ (mem_singleton.mpr rfl))
    omega
  · have hordered : 8 ≤ 0 := rel_of_pairwise_cons h.ordered (mem_singleton.mpr rfl)
    omega

end KConfuzz.Compiler
