import KConfuzz.Executor.Memory
import Mathlib.Data.Nat.Bitwise

/-!
# Bitfields in memory

A unit is read in its byte order, the bits of the field are replaced (`setBits`) and the unit is
written back. Reading a unit gives the number that was written (`unitValue_store`).
-/

namespace KConfuzz.Executor

open Lib.ByteMemory Lib.LittleEndian

variable {host : Host} {mem mem' : Memory} {addr val size bf off len : UInt64}

/-- The integers that the executor can store: there are no big-endian bytes. -/
def IsUnit (size bf : UInt64) : Prop :=
  size ∈ [1, 2, 4, 8] ∧ (bf = binaryFormatNative ∨ bf = binaryFormatBigendian ∧ size ≠ 1)

instance (size bf : UInt64) : Decidable (IsUnit size bf) := inferInstanceAs (Decidable (_ ∧ _))

/-- A range of bits of a unit. -/
def InUnit (size off len : UInt64) : Prop := off.toNat + len.toNat ≤ 8 * size.toNat

instance (size off len : UInt64) : Decidable (InUnit size off len) :=
  inferInstanceAs (Decidable (_ ≤ _))

/-- A bitfield that is stored. An integer that is no bitfield has offset and length 0, and the mask
of 64 bits is empty. -/
structure IsField (size off len : UInt64) : Prop where
  isBitfield : ¬ (off = 0 ∧ len = 0)
  inUnit : InUnit size off len
  len_lt : len.toNat < 64

/-- The number in the unit at `addr`. -/
def unitValue (host : Host) (mem : Memory) (addr size bf : UInt64) : ℕ :=
  (swap host (UInt64.ofNat (ofLE (host.order (load mem addr size.toNat)))) size bf).toNat

/-- The unit `x` with the bits of a field replaced. -/
def setBits (x val shift len : UInt64) : UInt64 :=
  x &&& ~~~bitmask shift len ||| val <<< shift &&& bitmask shift len

/-! ## Byte order -/

@[simp] lemma Host.length_order (bytes : List UInt8) : (host.order bytes).length = bytes.length := by
  cases host <;> simp [Host.order]

@[simp] lemma Host.order_order (bytes : List UInt8) : host.order (host.order bytes) = bytes := by
  cases host <;> simp [Host.order]

/-- The place of a bitfield, without a wrap-around. -/
lemma toNat_bitfieldShift (h : InUnit size off len) (hsize : size.toNat ≤ 8) :
    (bitfieldShift host size off len).toNat =
      if host = .littleEndian then off.toNat else 8 * size.toNat - off.toNat - len.toNat := by
  have height : (8 : UInt64).toNat = 8 := rfl
  unfold InUnit at h
  cases host with
  | littleEndian => rfl
  | bigEndian =>
    show (size * 8 - off - len).toNat = 8 * size.toNat - off.toNat - len.toNat
    have hmul : (size * 8).toNat = 8 * size.toNat := by
      rw [UInt64.toNat_mul, height]
      omega
    rw [UInt64.toNat_sub_of_le _ _ (UInt64.le_iff_toNat_le.mpr ?_),
      UInt64.toNat_sub_of_le _ _ (UInt64.le_iff_toNat_le.mpr ?_), hmul]
    · omega
    · rw [UInt64.toNat_sub_of_le _ _ (UInt64.le_iff_toNat_le.mpr (by omega)), hmul]
      omega

section

variable (h : IsUnit size bf)

include h

lemma IsUnit.size_le : size.toNat ≤ 8 := by
  obtain ⟨hsize, -⟩ := h
  simp only [List.mem_cons, List.not_mem_nil, or_false] at hsize
  rcases hsize with rfl | rfl | rfl | rfl <;> decide

lemma toNat_ofNat_ofLE {bytes : List UInt8} (hlen : bytes.length = size.toNat) :
    (UInt64.ofNat (ofLE bytes)).toNat = ofLE bytes := by
  have hpow : 256 ^ size.toNat ≤ 256 ^ 8 := Nat.pow_le_pow_right (by omega) h.size_le
  exact UInt64.toNat_ofNat_of_lt' (lt_of_lt_of_le (hlen ▸ ofLE_lt bytes) hpow)

/-- What `swap` makes of the number that some bytes stand for. -/
lemma toNat_swap_ofLE {bytes : List UInt8} (hlen : bytes.length = size.toNat) :
    (swap host (UInt64.ofNat (ofLE bytes)) size bf).toNat =
      ofLE (if bf = binaryFormatNative ∨ host = .bigEndian then bytes else bytes.reverse) := by
  unfold swap
  split_ifs with hbf
  · exact toNat_ofNat_ofLE h hlen
  · rw [toNat_ofNat_ofLE h hlen, ← hlen, toLE_ofLE,
      toNat_ofNat_ofLE h (bytes.length_reverse.trans hlen)]

/-- The bytes of a unit in the order of memory, and the number they stand for. -/
lemma unitValue_eq : unitValue host mem addr size bf =
    ofLE (if bf = binaryFormatNative ∧ host = .littleEndian then load mem addr size.toNat
      else (load mem addr size.toNat).reverse) := by
  rw [unitValue, toNat_swap_ofLE h (by simp)]
  cases host <;> by_cases hbf : bf = binaryFormatNative <;> simp [Host.order, hbf]

/-- Two memories that agree around a unit and in its number are the same. -/
lemma eq_of_unitValue_eq
    (hvalue : unitValue host mem addr size bf = unitValue host mem' addr size bf)
    (hout : ∀ x, ¬ InRange addr size.toNat x → mem x = mem' x) : mem = mem' := by
  refine eq_of_load_eq ?_ hout
  rw [unitValue_eq h, unitValue_eq h] at hvalue
  have hinj : ∀ l l' : List UInt8, l.length = l'.length → ofLE l = ofLE l' → l = l' := by
    intro l l' hlen heq
    rw [← toLE_ofLE l, ← toLE_ofLE l', heq, hlen]
  split_ifs at hvalue
  · exact hinj _ _ (by simp) hvalue
  · exact List.reverse_injective (hinj _ _ (by simp) hvalue)

/-- A unit that was stored reads as the number that was written. -/
lemma unitValue_store (v : UInt64) :
    unitValue host (store mem addr (host.order (toLE size.toNat (swap host v size bf).toNat))) addr
      size bf = v.toNat % 256 ^ size.toNat := by
  have hsize := h.size_le
  have hlength : (host.order (toLE size.toNat (swap host v size bf).toNat)).length = size.toNat := by
    simp
  have hload := load_store_self mem addr (hlength.trans_le (by omega))
  rw [hlength] at hload
  rw [unitValue, hload, Host.order_order, toNat_swap_ofLE h (length_toLE ..)]
  unfold swap
  split_ifs with hbf
  · rw [ofLE_toLE]
  · have hlen : (toLE size.toNat v.toNat).reverse.length = size.toNat := by simp
    have hback := toLE_ofLE (toLE size.toNat v.toNat).reverse
    rw [hlen] at hback
    rw [toNat_ofNat_ofLE h hlen, hback, List.reverse_reverse, ofLE_toLE]

lemma unitValue_lt : unitValue host mem addr size bf < 2 ^ (8 * size.toNat) := by
  have hlen := length_load mem addr size.toNat
  rw [unitValue_eq h, Nat.pow_mul]
  split_ifs
  · simpa using ofLE_lt (load mem addr size.toNat)
  · simpa using ofLE_lt (load mem addr size.toNat).reverse

end

/-! ## Bits -/

variable {shift : UInt64}

/-- The bits of a mask that is inside 64 bits and shorter than that. -/
lemma testBit_bitmask (hin : shift.toNat + len.toNat ≤ 64) (hlen : len.toNat < 64) (i : ℕ) :
    (bitmask shift len).toNat.testBit i =
      decide (shift.toNat ≤ i ∧ i < shift.toNat + len.toNat) := by
  have hone : (1 <<< len : UInt64).toNat = 2 ^ len.toNat := by
    rw [UInt64.toNat_shiftLeft, Nat.mod_eq_of_lt hlen, UInt64.toNat_one, Nat.one_shiftLeft,
      Nat.mod_eq_of_lt (Nat.pow_lt_pow_right (by omega) hlen)]
  have hle : (1 : UInt64) ≤ 1 <<< len := by
    rw [UInt64.le_iff_toNat_le, hone]
    exact Nat.one_le_two_pow
  rw [bitmask, UInt64.toNat_shiftLeft, UInt64.toNat_sub_of_le _ _ hle, hone, UInt64.toNat_one,
    Nat.testBit_mod_two_pow, Nat.testBit_shiftLeft, Nat.testBit_two_pow_sub_one]
  rcases Nat.lt_or_ge shift.toNat 64 with hshift | hshift
  · rw [Nat.mod_eq_of_lt hshift, ← Bool.decide_and, ← Bool.decide_and]
    congr 1
    apply propext
    omega
  · rw [← Bool.decide_and, ← Bool.decide_and]
    congr 1
    apply propext
    omega

/-- Setting a field changes its bits and no others. -/
lemma testBit_setBits (hin : shift.toNat + len.toNat ≤ 64) (hlen : len.toNat < 64)
    (x val : UInt64) {i : ℕ} (hi : i < 64) :
    (setBits x val shift len).toNat.testBit i =
      if shift.toNat ≤ i ∧ i < shift.toNat + len.toNat then val.toNat.testBit (i - shift.toNat)
      else x.toNat.testBit i := by
  have hmask := testBit_bitmask hin hlen i
  have hnot : (~~~bitmask shift len).toNat.testBit i = !(bitmask shift len).toNat.testBit i := by
    rw [UInt64.toNat_not, UInt64.size, Nat.sub_sub, Nat.add_comm,
      Nat.testBit_two_pow_sub_succ (bitmask shift len).toNat_lt]
    simp [hi]
  rw [setBits, UInt64.toNat_or, UInt64.toNat_and, UInt64.toNat_and, Nat.testBit_or, Nat.testBit_and,
    Nat.testBit_and, hnot, hmask, UInt64.toNat_shiftLeft, Nat.testBit_mod_two_pow,
    Nat.testBit_shiftLeft]
  split_ifs with hbits
  · have hshift : shift.toNat % 64 = shift.toNat := Nat.mod_eq_of_lt (by omega)
    simp [hbits, hi, hshift]
  · simp [hbits]

/-! ## One bitfield -/

/-- The lowest bit of a field in its unit. -/
def fieldStart (host : Host) (size off len : UInt64) : ℕ := (bitfieldShift host size off len).toNat

/-- The bits of a field, counted from the lowest bit of the unit. -/
def InField (host : Host) (size off len : UInt64) (i : ℕ) : Prop :=
  fieldStart host size off len ≤ i ∧ i < fieldStart host size off len + len.toNat

instance (host : Host) (size off len : UInt64) (i : ℕ) : Decidable (InField host size off len i) :=
  inferInstanceAs (Decidable (_ ∧ _))

lemma fieldStart_le (h : InUnit size off len) (hsize : size.toNat ≤ 8) :
    fieldStart host size off len + len.toNat ≤ 8 * size.toNat := by
  rw [fieldStart, toNat_bitfieldShift h hsize]
  unfold InUnit at h
  split_ifs <;> omega

section

variable (hunit : IsUnit size bf) (h : IsField size off len)

include hunit h

/-- The bits of a unit after a store of a bitfield. -/
lemma testBit_unitValue (i : ℕ) :
    (unitValue host (copyinInt mem host addr val size bf off len) addr size bf).testBit i =
      if InField host size off len i then val.toNat.testBit (i - fieldStart host size off len)
      else (unitValue host mem addr size bf).testBit i := by
  have hsize := hunit.size_le
  have hin := @fieldStart_le host _ _ _ h.inUnit hsize
  have hpow : 256 ^ size.toNat = 2 ^ (8 * size.toNat) := by rw [Nat.pow_mul]
  unfold copyinInt
  dsimp only
  rw [if_neg h.isBitfield, unitValue_store hunit, hpow, Nat.testBit_mod_two_pow]
  by_cases hi : i < 8 * size.toNat
  · rw [decide_eq_true hi, Bool.true_and]
    exact testBit_setBits (hin.trans (by omega)) h.len_lt _ _ (by omega)
  · have hlt : unitValue host mem addr size bf < 2 ^ i :=
      lt_of_lt_of_le (unitValue_lt hunit) (Nat.pow_le_pow_right (by omega) (by omega))
    have hout : ¬ InField host size off len i := fun hfield => hi (lt_of_lt_of_le hfield.2 hin)
    rw [if_neg hout, Nat.testBit_lt_two_pow hlt, decide_eq_false hi, Bool.false_and]

omit hunit h in
lemma copyinInt_of_not_inRange {x : UInt64} (hx : ¬ InRange addr size.toNat x) :
    copyinInt mem host addr val size bf off len x = mem x := by
  unfold copyinInt
  split_ifs <;> exact store_of_not_inRange (by simpa using hx)

end

/-- What is in memory after a store of a bitfield: the field holds the low bits of the value, and
everything else is as before. -/
structure FieldStored (host : Host) (mem mem' : Memory) (addr val size bf off len : UInt64) :
    Prop where
  outside : ∀ x, ¬ InRange addr size.toNat x → mem' x = mem x
  others : ∀ i, ¬ InField host size off len i →
    (unitValue host mem' addr size bf).testBit i = (unitValue host mem addr size bf).testBit i
  value : unitValue host mem' addr size bf / 2 ^ fieldStart host size off len % 2 ^ len.toNat =
    val.toNat % 2 ^ len.toNat

/-- Ranges of bits of a unit that do not overlap. -/
def DisjointBits (off len off' len' : UInt64) : Prop :=
  off.toNat + len.toNat ≤ off'.toNat ∨ off'.toNat + len'.toNat ≤ off.toNat

section

variable (hunit : IsUnit size bf)

include hunit

lemma fieldStored_copyinInt (h : IsField size off len) :
    FieldStored host mem (copyinInt mem host addr val size bf off len) addr val size bf off len := by
  refine ⟨fun x hx => copyinInt_of_not_inRange hx, fun i hi => ?_, ?_⟩
  · rw [testBit_unitValue hunit h, if_neg hi]
  · apply Nat.eq_of_testBit_eq
    intro i
    rw [Nat.testBit_mod_two_pow, Nat.testBit_mod_two_pow, Nat.testBit_div_two_pow,
      testBit_unitValue hunit h]
    by_cases hi : i < len.toNat
    · rw [if_pos ⟨by omega, by omega⟩, Nat.add_sub_cancel]
    · rw [decide_eq_false hi, Bool.false_and, Bool.false_and]

/-- Stores to disjoint bitfields of a unit can be exchanged. -/
lemma copyinInt_comm (h : IsField size off len) {off' len' : UInt64} (h' : IsField size off' len')
    (hdisjoint : DisjointBits off len off' len') (val' : UInt64) :
    copyinInt (copyinInt mem host addr val size bf off len) host addr val' size bf off' len' =
      copyinInt (copyinInt mem host addr val' size bf off' len') host addr val size bf off len := by
  have hapart : ∀ i, InField host size off len i → ¬ InField host size off' len' i := by
    intro i
    have hin := h.inUnit
    have hin' := h'.inUnit
    unfold InField fieldStart
    rw [toNat_bitfieldShift hin hunit.size_le, toNat_bitfieldShift hin' hunit.size_le]
    unfold InUnit at hin hin'
    unfold DisjointBits at hdisjoint
    split_ifs <;> omega
  apply @eq_of_unitValue_eq host _ _ addr _ _ hunit
  · apply Nat.eq_of_testBit_eq
    intro i
    rw [testBit_unitValue hunit h', testBit_unitValue hunit h, testBit_unitValue hunit h,
      testBit_unitValue hunit h']
    split_ifs with hi' hi
    · exact absurd hi' (hapart i hi)
    all_goals rfl
  · intro x hx
    simp only [copyinInt_of_not_inRange hx]

/-- An integer that is no bitfield fills its unit. -/
lemma unitValue_copyinInt_zero :
    unitValue host (copyinInt mem host addr val size bf 0 0) addr size bf =
      val.toNat % 256 ^ size.toNat := by
  unfold copyinInt
  dsimp only
  rw [if_pos ⟨rfl, rfl⟩, unitValue_store hunit]

/-- A mask of 64 bits is empty: `1ull << 64` is 1 on the machine. -/
lemma unitValue_copyinInt_word (hlen : len = 64) :
    unitValue host (copyinInt mem host addr val size bf off len) addr size bf =
      unitValue host mem addr size bf := by
  have hmask : ∀ shift, bitmask shift len = 0 := by
    intro shift
    have hzero : (1 : UInt64) <<< 64 - 1 = 0 := by decide
    rw [bitmask, hlen, hzero, UInt64.zero_shiftLeft]
  have hne : ¬ (off = 0 ∧ len = 0) := by
    rw [hlen]
    exact fun h => absurd h.2 (by decide)
  unfold copyinInt
  dsimp only
  have hsame : ∀ x y : UInt64, x &&& ~~~0 ||| y &&& 0 = x := by simp
  rw [if_neg hne, unitValue_store hunit, hmask, hsame]
  refine Nat.mod_eq_of_lt ?_
  rw [show 256 ^ size.toNat = 2 ^ (8 * size.toNat) by rw [Nat.pow_mul]]
  exact unitValue_lt hunit

end

/-- A range of bits of a unit is stored as a bitfield, whatever was in memory and whatever the
value, exactly if it is not the range of an integer, which fills its unit, and shorter than 64
bits. Stores to disjoint bitfields of a unit commute. -/
theorem copyinInt_stores_field_iff (host : Host) (hunit : IsUnit size bf)
    (hin : InUnit size off len) :
    ((∀ mem addr val,
        FieldStored host mem (copyinInt mem host addr val size bf off len) addr val size bf off len ∧
        ∀ val' off' len', IsField size off' len' → DisjointBits off len off' len' →
          copyinInt (copyinInt mem host addr val size bf off len) host addr val' size bf off' len' =
            copyinInt (copyinInt mem host addr val' size bf off' len') host addr val size bf off
              len) ↔
      IsField size off len) ∧
    ∀ mem addr val, unitValue host (copyinInt mem host addr val size bf 0 0) addr size bf =
      val.toNat % 256 ^ size.toNat := by
  refine ⟨⟨fun hstores => ?_, fun h mem addr val => ?_⟩, fun mem addr val =>
    unitValue_copyinInt_zero hunit⟩
  · -- the value 1 in a unit that holds 0
    set mem := store (fun _ => 0) 0 (host.order (toLE size.toNat (swap host 0 size bf).toNat))
    have hzero : unitValue host mem 0 size bf = 0 := by
      rw [unitValue_store hunit]
      exact Nat.zero_mod _
    have hstored := (hstores mem 0 1).1
    have hpos : 0 < size.toNat := by
      obtain ⟨hsize, -⟩ := hunit
      simp only [List.mem_cons, List.not_mem_nil, or_false] at hsize
      rcases hsize with rfl | rfl | rfl | rfl <;> decide
    refine ⟨?_, hin, ?_⟩
    · rintro ⟨rfl, rfl⟩
      have hbit := hstored.others 0 fun hfield => absurd hfield.2 (by
        have : (0 : UInt64).toNat = 0 := rfl
        have := hfield.1
        omega)
      rw [unitValue_copyinInt_zero hunit, hzero] at hbit
      have hone : (1 : UInt64).toNat % 256 ^ size.toNat = 1 :=
        Nat.mod_eq_of_lt (Nat.one_lt_pow (by omega) (by omega))
      rw [hone] at hbit
      exact absurd hbit (by decide)
    · by_contra! hlong
      have hsize := hunit.size_le
      unfold InUnit at hin
      have hlen : len = 64 := UInt64.toNat_inj.mp (show len.toNat = 64 by omega)
      have hvalue := hstored.value
      rw [unitValue_copyinInt_word hunit hlen, hzero, hlen] at hvalue
      exact absurd hvalue (by rw [Nat.zero_div]; decide)
  · exact ⟨fieldStored_copyinInt hunit h,
      fun val' off' len' h' hdisjoint => copyinInt_comm hunit h h' hdisjoint val'⟩

/-- Bits 4 to 11 of a big-endian half-word, on a little-endian machine. -/
theorem copyinInt_stores_byte_of_half_word :
    unitValue .littleEndian (copyinInt (fun _ => 0xff) .littleEndian 0x1000 0x5 2
      binaryFormatBigendian 4 8) 0x1000 2 binaryFormatBigendian / 2 ^ 4 % 2 ^ 8 = 5 :=
  (((@copyinInt_stores_field_iff 2 binaryFormatBigendian 4 8 .littleEndian (by decide)
    (by decide)).1.2 ⟨by decide, by decide, by decide⟩) (fun _ => 0xff) 0x1000 0x5).1.value

/-- The bitfield `int64:64` is not stored at all. -/
theorem not_fieldStored_word :
    ¬ FieldStored .littleEndian (fun _ => 0)
      (copyinInt (fun _ => 0) .littleEndian 0 1 8 binaryFormatNative 0 64) 0 1 8 binaryFormatNative
      0 64 := by
  intro h
  exact absurd h.value (by decide)

end KConfuzz.Executor
