import Mathlib.Algebra.Ring.Nat

/-!
# Byte memory

A memory holds a byte at every 64-bit address, and addresses wrap around. A byte is in the range
of `n` bytes at `addr` when its distance from `addr` is below `n`; storing a list of bytes
changes the bytes of its range and no others.
-/

namespace Lib.ByteMemory

open List

abbrev Memory := UInt64 → UInt8

def store (mem : Memory) (addr : UInt64) (bytes : List UInt8) : Memory := fun x =>
  (bytes[(x - addr).toNat]?).getD (mem x)

def load (mem : Memory) (addr : UInt64) (n : ℕ) : List UInt8 :=
  (List.range n).map fun i => mem (addr + UInt64.ofNat i)

/-- The address `x` is one of the `n` addresses from `addr` on. -/
def InRange (addr : UInt64) (n : ℕ) (x : UInt64) : Prop := (x - addr).toNat < n

/-- The two ranges have no address in common. -/
def Apart (addr : UInt64) (n : ℕ) (addr' : UInt64) (n' : ℕ) : Prop :=
  ∀ x, InRange addr n x → ¬ InRange addr' n' x

variable {mem mem' : Memory} {addr addr' x : UInt64} {n n' : ℕ} {bytes : List UInt8}

lemma Apart.symm (h : Apart addr n addr' n') : Apart addr' n' addr n := fun x hx hx' => h x hx' hx

/-! ## Distances -/

lemma add_ofNat_sub (addr : UInt64) {i : ℕ} (hi : i < 2 ^ 64) :
    (addr + UInt64.ofNat i - addr).toNat = i := by
  rw [UInt64.add_comm, UInt64.add_sub_cancel]
  exact UInt64.toNat_ofNat_of_lt' hi

lemma add_ofNat_toNat_sub (addr x : UInt64) : addr + UInt64.ofNat (x - addr).toNat = x := by
  rw [UInt64.ofNat_toNat, UInt64.add_comm, UInt64.sub_add_cancel]

/-! ## Bytes -/

lemma store_of_not_inRange (h : ¬ InRange addr bytes.length x) :
    store mem addr bytes x = mem x := by
  rw [store, getElem?_eq_none (Nat.le_of_not_lt h)]
  rfl

/-! ## Words -/

@[simp] lemma length_load (mem : Memory) (addr : UInt64) (n : ℕ) :
    (load mem addr n).length = n := by
  simp [load]

lemma load_congr (hn : n ≤ 2 ^ 64) (h : ∀ x, InRange addr n x → mem x = mem' x) :
    load mem addr n = load mem' addr n := by
  apply map_congr_left
  intro i hi
  have hin := mem_range.mp hi
  refine h _ ?_
  rw [InRange, add_ofNat_sub addr (by omega)]
  exact hin

lemma load_store_of_apart (hn : n ≤ 2 ^ 64) (h : Apart addr n addr' bytes.length) :
    load (store mem addr' bytes) addr n = load mem addr n :=
  load_congr hn fun x hx => store_of_not_inRange (h x hx)

lemma load_store_self (mem : Memory) (addr : UInt64) (h : bytes.length ≤ 2 ^ 64) :
    load (store mem addr bytes) addr bytes.length = bytes := by
  apply ext_getElem
  · simp
  · intro i hi hi'
    have hbyte : store mem addr bytes (addr + UInt64.ofNat i) = bytes[i] := by
      rw [store, add_ofNat_sub addr (by omega), getElem?_eq_getElem hi']
      rfl
    simpa [load] using hbyte

/-- A memory is what is in a range of it and what is around the range. -/
lemma eq_of_load_eq (hload : load mem addr n = load mem' addr n)
    (hout : ∀ x, ¬ InRange addr n x → mem x = mem' x) : mem = mem' := by
  funext x
  by_cases hx : InRange addr n x
  · have hget := congrArg (fun bytes => bytes[(x - addr).toNat]?) hload
    have hlt : (x - addr).toNat < n := hx
    simpa only [load, getElem?_map, getElem?_range hlt, Option.map_some, add_ofNat_toNat_sub,
      Option.some.injEq] using hget
  · exact hout x hx

lemma load_add (mem : Memory) (addr : UInt64) (n m : ℕ) :
    load mem addr (n + m) = load mem addr n ++ load mem (addr + UInt64.ofNat n) m := by
  simp only [load, range_add, map_append, map_map]
  congr 1
  apply map_congr_left
  simp [UInt64.add_assoc]

lemma add_ofNat_inj {base : UInt64} {i j : ℕ} (hi : i < 2 ^ 64) (hj : j < 2 ^ 64)
    (h : base + UInt64.ofNat i = base + UInt64.ofNat j) : i = j := by
  have hdist := congrArg (fun y => (y - base).toNat) h
  simp only [add_ofNat_sub base hi, add_ofNat_sub base hj] at hdist
  exact hdist

lemma apart_of_offsets (base : UInt64) {i j : ℕ} (h : i + n ≤ j) (hj : j + n' ≤ 2 ^ 64) :
    Apart (base + UInt64.ofNat i) n (base + UInt64.ofNat j) n' := by
  intro x hx hx'
  have hk : (x - (base + UInt64.ofNat i)).toNat < n := hx
  have hl : (x - (base + UInt64.ofNat j)).toNat < n' := hx'
  -- the byte would be at two different offsets from the base
  have hone := add_ofNat_toNat_sub (base + UInt64.ofNat i) x
  have htwo := add_ofNat_toNat_sub (base + UInt64.ofNat j) x
  rw [UInt64.add_assoc, ← UInt64.ofNat_add] at hone htwo
  have heq := add_ofNat_inj (by omega) (by omega) (hone.trans htwo.symm)
  omega

end Lib.ByteMemory
