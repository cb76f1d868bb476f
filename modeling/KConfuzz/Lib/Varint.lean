import Mathlib.Data.Nat.Bitwise

/-!
# Variable-length integers

The variable-length encoding of 64-bit integers: seven bits to a byte, least significant group
first, with the top bit of a byte set when another one follows. Signed values are mapped to
unsigned ones first so that small negative numbers stay short (`zigzag`). The decoder stops
after ten bytes and rejects a tenth byte that does not fit.

Main result: what `varint` reads back from `appendVarint v` followed by anything is `v`
(`varint_appendVarint`).
-/

namespace Lib.Varint

open UInt64

/-! ## Unsigned -/

/-- The bytes of `x` when at most `n` more bytes may follow the first. -/
def uvarintBytes : ℕ → UInt64 → List UInt8
  | 0, x => [x.toUInt8]
  | n + 1, x =>
    if x < 0x80 then [x.toUInt8] else (x.toUInt8 ||| 0x80) :: uvarintBytes n (x >>> 7)

/-- 64 bits are ten groups of seven. -/
def appendUvarint (x : UInt64) : List UInt8 := uvarintBytes 9 x

/-- Reads the groups from the `i`-th on into `x`; also returns what is left of the input. -/
def uvarintFrom (i : ℕ) (x : UInt64) : List UInt8 → Option (UInt64 × List UInt8)
  | [] => none
  | b :: rest =>
    if i = 10 then none
    else if b < 0x80 then
      if i = 9 ∧ 1 < b then none else some (x ||| b.toUInt64 <<< UInt64.ofNat (7 * i), rest)
    else uvarintFrom (i + 1) (x ||| (b &&& 0x7f).toUInt64 <<< UInt64.ofNat (7 * i)) rest

def uvarint (buf : List UInt8) : Option (UInt64 × List UInt8) := uvarintFrom 0 0 buf

lemma uvarintBytes_ne_nil (n : ℕ) (x : UInt64) : uvarintBytes n x ≠ [] := by
  cases n with
  | zero => simp [uvarintBytes]
  | succ n =>
    unfold uvarintBytes
    split
    · simp
    · simp

/-- The payload of a continuation byte is the lowest group. -/
lemma toNat_group (x : UInt64) :
    ((x.toUInt8 ||| 0x80) &&& 0x7f).toUInt64.toNat = x.toNat % 128 := by
  have hmask : (0x7f : UInt8).toNat = 2 ^ 7 - 1 := rfl
  have htop : (0x80 : UInt8).toNat = 128 := rfl
  rw [UInt8.toNat_toUInt64, UInt8.toNat_and, UInt8.toNat_or, hmask, htop,
    Nat.and_two_pow_sub_one_eq_mod, Nat.or_mod_two_pow, toNat_toUInt8]
  have hmod : x.toNat % 2 ^ 8 % 2 ^ 7 = x.toNat % 128 := by omega
  rw [hmod]
  exact Nat.or_zero _

lemma toNat_shiftRight_group (x : UInt64) : (x >>> 7).toNat = x.toNat / 128 := by
  rw [UInt64.toNat_shiftRight, Nat.shiftRight_eq_div_pow]
  rfl

variable {x : UInt64} {i : ℕ}

/-- The lowest group and the others, shifted back into place. -/
lemma group_or_shiftRight (x : UInt64) :
    ((x.toUInt8 ||| 0x80) &&& 0x7f).toUInt64 ||| (x >>> 7) <<< 7 = x := by
  have hhigh : ((x >>> 7) <<< 7).toNat = 2 ^ 7 * (x.toNat / 128) := by
    have hx := x.toNat_lt
    have hshift : (7 : UInt64).toNat % 64 = 7 := rfl
    rw [UInt64.toNat_shiftLeft, toNat_shiftRight_group, hshift, Nat.shiftLeft_eq]
    omega
  apply toNat.inj
  rw [UInt64.toNat_or, toNat_group, hhigh, Nat.or_comm,
    ← Nat.two_pow_add_eq_or_of_lt (Nat.mod_lt _ (by omega))]
  exact Nat.div_add_mod _ _

/-- Shifting the lowest group and the others into place separately. -/
lemma or_shiftLeft_groups (hi : i < 9) :
    ((x.toUInt8 ||| 0x80) &&& 0x7f).toUInt64 <<< UInt64.ofNat (7 * i) |||
        (x >>> 7) <<< UInt64.ofNat (7 * (i + 1)) = x <<< UInt64.ofNat (7 * i) := by
  have hshift : UInt64.ofNat (7 * (i + 1)) = 7 + UInt64.ofNat (7 * i) := by
    rw [Nat.mul_succ, Nat.add_comm, UInt64.ofNat_add]
    rfl
  have hlt : (7 : UInt64).toNat + (UInt64.ofNat (7 * i)).toNat < 64 := by
    have hseven : (7 : UInt64).toNat = 7 := rfl
    have hle : 7 * i % 2 ^ 64 ≤ 7 * i := Nat.mod_le _ _
    rw [hseven, toNat_ofNat']
    omega
  rw [hshift, UInt64.shiftLeft_add_of_toNat_lt hlt, ← UInt64.shiftLeft_or, group_or_shiftRight]

/-- Reading the last byte. -/
lemma uvarintFrom_last (hi : i < 10) (acc : UInt64) (hx : x.toNat < 128)
    (hone : i = 9 → x.toNat ≤ 1) (rest : List UInt8) :
    uvarintFrom i acc (x.toUInt8 :: rest) =
      some (acc ||| x <<< ofNat (7 * i), rest) := by
  have hbyte : x.toUInt8.toNat = x.toNat := by
    rw [toNat_toUInt8]
    omega
  have hsmall : x.toUInt8 < 0x80 := by
    rw [UInt8.lt_iff_toNat_lt, hbyte]
    exact hx
  have hfits : ¬(i = 9 ∧ 1 < x.toUInt8) := by
    intro h
    have hgt : 1 < x.toNat := by
      rw [← hbyte]
      exact UInt8.lt_iff_toNat_lt.mp h.2
    omega
  have hback : x.toUInt8.toUInt64 = x := by
    apply toNat.inj
    rw [UInt8.toNat_toUInt64, hbyte]
  have hne : i ≠ 10 := by omega
  simp only [uvarintFrom, hne, hsmall, hfits, hback, if_false, if_true]

/-- What is written is read back. -/
lemma uvarintFrom_uvarintBytes {n : ℕ} (hn : i + n = 9) (acc : UInt64)
    (hx : x.toNat < 2 ^ (64 - 7 * i)) (rest : List UInt8) :
    uvarintFrom i acc (uvarintBytes n x ++ rest) =
      some (acc ||| x <<< ofNat (7 * i), rest) := by
  induction n generalizing i acc x with
  | zero =>
    -- the tenth byte holds the one bit that is left
    have hi : i = 9 := by omega
    subst hi
    exact uvarintFrom_last (by omega) acc (by omega) (fun _ => by omega) rest
  | succ n ih =>
    unfold uvarintBytes
    split
    · rename_i hsmall
      have hxlt : x.toNat < 128 := lt_iff_toNat_lt.mp hsmall
      exact uvarintFrom_last (by omega) acc hxlt (fun h9 => by omega) rest
    · have hcont : ¬ (x.toUInt8 ||| 0x80) < 0x80 := by
        exact Nat.not_lt.mpr Nat.right_le_or
      have hi : i ≠ 10 := by omega
      have hrest : (x >>> 7).toNat < 2 ^ (64 - 7 * (i + 1)) := by
        rw [toNat_shiftRight_group]
        apply Nat.div_lt_of_lt_mul
        have hexp : 64 - 7 * i = 7 + (64 - 7 * (i + 1)) := by omega
        rw [hexp, Nat.pow_add] at hx
        exact hx
      rw [List.cons_append, uvarintFrom]
      simp only [hi, hcont, if_false]
      rw [ih (by omega) _ hrest, UInt64.or_assoc, or_shiftLeft_groups (by omega)]

lemma uvarint_appendUvarint (x : UInt64) (rest : List UInt8) :
    uvarint (appendUvarint x ++ rest) = some (x, rest) := by
  rw [uvarint, appendUvarint, uvarintFrom_uvarintBytes (by omega) 0 x.toNat_lt rest]
  simp

/-! ## Signed -/

/-- The unsigned value a signed one, given by its bits, is written as. -/
def zigzag (v : UInt64) : UInt64 := if v < 0x8000000000000000 then v <<< 1 else ~~~(v <<< 1)

def unzigzag (ux : UInt64) : UInt64 := if ux &&& 1 = 0 then ux >>> 1 else ~~~(ux >>> 1)

lemma unzigzag_zigzag (v : UInt64) : unzigzag (zigzag v) = v := by
  have hv : v.toNat < 2 ^ 64 := v.toNat_lt
  have hsign : v < 0x8000000000000000 ↔ v.toNat < 2 ^ 63 := lt_iff_toNat_lt
  have hodd : ∀ y : UInt64, y &&& 1 = 0 ↔ y.toNat % 2 = 0 := by
    intro y
    rw [← UInt64.toNat_inj, UInt64.toNat_and]
    exact Iff.of_eq (congrArg (· = 0) (Nat.and_one_is_mod _))
  have hhalf : ∀ y : UInt64, (y >>> 1).toNat = y.toNat / 2 := by
    intro y
    rfl
  have hdouble : (v <<< 1).toNat = v.toNat * 2 % 2 ^ 64 := by
    rw [UInt64.toNat_shiftLeft, Nat.shiftLeft_eq]
    rfl
  have hsize : size = 2 ^ 64 := rfl
  apply toNat.inj
  unfold zigzag
  split
  · rename_i hpos
    have := hsign.mp hpos
    have heven : (v <<< 1) &&& 1 = 0 := (hodd _).mpr (by omega)
    rw [unzigzag, if_pos heven, hhalf]
    omega
  · rename_i hneg
    have := hsign.not.mp hneg
    have hnot : (~~~(v <<< 1)).toNat = 2 ^ 64 - 1 - (v <<< 1).toNat := by
      rw [toNat_not, hsize]
    have hne : ¬ (~~~(v <<< 1)) &&& 1 = 0 := by
      rw [hodd]
      omega
    rw [unzigzag, if_neg hne, toNat_not, hhalf, hsize]
    omega

def appendVarint (v : UInt64) : List UInt8 := appendUvarint (zigzag v)

def varint (buf : List UInt8) : Option (UInt64 × List UInt8) :=
  (uvarint buf).map fun r => (unzigzag r.1, r.2)

lemma varint_appendVarint (v : UInt64) (rest : List UInt8) :
    varint (appendVarint v ++ rest) = some (v, rest) := by
  rw [varint, appendVarint, uvarint_appendUvarint, Option.map_some, unzigzag_zigzag]

lemma appendVarint_length_pos (v : UInt64) : 0 < (appendVarint v).length :=
  List.length_pos_iff.mpr (uvarintBytes_ne_nil 9 _)

end Lib.Varint
