import Mathlib.Algebra.Ring.Nat
import Mathlib.Data.Finset.Insert
import KConfuzz.Lib.ExceptFold

/-!
# The allocator of pages (`prog/alloc.go`)

`alloc` takes one of the first pages, one of the last pages, or a page near one that is used. The
last pages are counted back from the end with numbers that wrap around, and the first pages are
taken without a look at the size: both need three pages more than are wanted.

What `Intn` draws is a parameter, by the place of the call in `alloc`.
-/

namespace KConfuzz

open Lib.ExceptFold

structure VmaAlloc where
  numPages : UInt64
  used : List UInt64
  m : Finset UInt64

namespace VmaAlloc

def newVmaAlloc (totalPages : UInt64) : VmaAlloc :=
  { numPages := totalPages, used := [], m := ∅ }

/-- The loop ends at `page + size`, which may have wrapped around. -/
def noteAlloc (va : VmaAlloc) (page size : UInt64) : VmaAlloc :=
  (List.range' page.toNat ((page + size).toNat - page.toNat)).foldl
    (fun va n =>
      let i := UInt64.ofNat n
      if i ∈ va.m then va else { va with m := insert i va.m, used := va.used ++ [i] }) va

/-- `Intn`, whose argument is an `int`. -/
def intn (drawn : ℕ) (n : ℤ) : Except String ℕ :=
  if n ≤ 0 then .error "invalid argument to Intn" else .ok (drawn % n.toNat)

/-- `Intn` under a condition. -/
def intnIf (c : Prop) [Decidable c] (drawn : ℕ) (n : ℤ) (other : ℕ) : Except String ℕ :=
  if c then intn drawn n else .ok other

/-- The page that `alloc` takes. -/
def choosePage (va : VmaAlloc) (draws : ℕ → ℕ) (size : UInt64) : Except String UInt64 := do
  let front ← intnIf (va.used.length ≠ 0) (draws 0) 5 0
  if front = 0 then
    let page := UInt64.ofNat (← intn (draws 1) 4)
    let first ← intn (draws 2) 100
    return if first = 0 then page else va.numPages - page - size
  else
    let page := va.used.getD (← intn (draws 1) va.used.length) 0
    let bin ← intnIf (1 < size) (draws 2) 2 1
    let back ← intnIf (bin = 0) (draws 3) ((size.toNat : ℤ).bmod (2 ^ 64)) 0
    return min (page - min (UInt64.ofNat back) page) (va.numPages - size)

def alloc (va : VmaAlloc) (draws : ℕ → ℕ) (size : UInt64) :
    Except String (UInt64 × VmaAlloc) := do
  let numPages := va.numPages
  failIf (numPages < size) s!"vmaAlloc: bad size={size} numPages={numPages}"
  let page ← va.choosePage draws size
  failIf (numPages ≤ page ∨ numPages < size ∨ numPages < page + size)
    s!"vmaAlloc: bad page={page} size={size} numPages={numPages}"
  return (page, va.noteAlloc page size)

lemma intn_spec {n : ℤ} (hn : 0 < n) (drawn : ℕ) : ∃ x, intn drawn n = .ok x ∧ x < n := by
  refine ⟨_, if_neg (by omega), ?_⟩
  have hlt := Nat.mod_lt drawn (show 0 < n.toNat by omega)
  omega

lemma intnIf_spec {c : Prop} [Decidable c] {n : ℤ} (hn : c → 0 < n) (drawn other : ℕ) :
    ∃ x, intnIf c drawn n other = .ok x ∧ (¬ c → x = other) := by
  unfold intnIf
  split
  · rename_i hc
    obtain ⟨x, hx, -⟩ := intn_spec (hn hc) drawn
    exact ⟨x, hx, fun h => absurd hc h⟩
  · exact ⟨other, rfl, fun _ => rfl⟩

/-- The wrap-around of a page count: what is subtracted must be there. -/
lemma toNat_numPages_sub {va : VmaAlloc} {n : UInt64} (h : n.toNat ≤ va.numPages.toNat) :
    (va.numPages - n).toNat = va.numPages.toNat - n.toNat :=
  UInt64.toNat_sub_of_le _ _ (UInt64.le_iff_toNat_le.mpr h)

/-- With three pages more than are wanted, the page is inside, if no used page is looked at or
the size is an `int`. -/
lemma choosePage_spec {va : VmaAlloc} {size : UInt64} (hpos : 1 ≤ size.toNat)
    (hroom : size.toNat + 3 ≤ va.numPages.toNat) (hint : size.toNat < 2 ^ 63 ∨ va.used = [])
    (draws : ℕ → ℕ) :
    ∃ page, va.choosePage draws size = .ok page ∧
      page.toNat + size.toNat ≤ va.numPages.toNat := by
  refine exists_bind_eq_ok (intnIf_spec (fun _ => by decide) _ _) fun front hfront => ?_
  split
  · refine exists_bind_eq_ok (intn_spec (by decide) _) fun x hx => ?_
    refine exists_bind_eq_ok (intn_spec (by decide) _) fun first _ => ⟨_, rfl, ?_⟩
    have hx' : (UInt64.ofNat x).toNat = x := by
      rw [UInt64.toNat_ofNat']
      omega
    split
    · omega
    · have hnum := @toNat_numPages_sub va (.ofNat x) (by omega)
      rw [UInt64.toNat_sub_of_le _ _ (UInt64.le_iff_toNat_le.mpr (by omega))]
      omega
  · -- a page near a used one: there is one, so the size is an `int`
    have hused : va.used.length ≠ 0 := by
      intro hnil
      have := hfront (not_not.mpr hnil)
      contradiction
    have hint : size.toNat < 2 ^ 63 :=
      hint.resolve_right fun hnil => hused (List.length_eq_zero_iff.mpr hnil)
    refine exists_bind_eq_ok (intn_spec (by omega) _) fun i _ => ?_
    refine exists_bind_eq_ok (intnIf_spec (fun _ => by decide) _ _) fun bin _ => ?_
    refine exists_bind_eq_ok (intnIf_spec (fun _ => ?_) _ _) fun back _ => ⟨_, rfl, ?_⟩
    · rw [Int.bmod_eq_of_le] <;> omega
    · have hnum := @toNat_numPages_sub va size (by omega)
      show (if _ ≤ va.numPages - size then _ else _ : UInt64).toNat + _ ≤ _
      split
      · rename_i hle
        rw [UInt64.le_iff_toNat_le] at hle
        omega
      · omega

section

variable {va : VmaAlloc} {size : UInt64} {draws : ℕ → ℕ}

/-- Page 3 from the back: the subtraction wraps around for the last sizes. -/
lemma choosePage_third (h0 : draws 0 = 0) (h1 : draws 1 = 3) (h2 : draws 2 = 1) :
    va.choosePage draws size = .ok (va.numPages - 3 - size) := by
  have hfront : intnIf (va.used.length ≠ 0) 0 5 0 = .ok 0 := by
    unfold intnIf
    split <;> rfl
  have hpage : intn 3 4 = .ok 3 := rfl
  have hlast : intn 1 100 = .ok 1 := rfl
  simp only [choosePage, h0, hfront, h1, hpage, h2, hlast, bind, Except.bind, if_true]
  rfl

/-- Back from a used page: the bound is negative for a size that is no `int`. -/
lemma choosePage_ne_ok (hused : va.used ≠ []) (hint : 2 ^ 63 ≤ size.toNat) (h0 : draws 0 = 1)
    (h2 : draws 2 = 0) (page : UInt64) : va.choosePage draws size ≠ .ok page := by
  have hlen : va.used.length ≠ 0 := fun h => hused (List.length_eq_zero_iff.mp h)
  have hsize : (1 : UInt64) < size := by
    rw [UInt64.lt_iff_toNat_lt]
    have : (1 : UInt64).toNat = 1 := rfl
    omega
  have hneg : (size.toNat : ℤ).bmod (2 ^ 64) ≤ 0 := by
    have hwrap := @Int.sub_bmod_right size.toNat (2 ^ 64)
    have hlt := size.toNat_lt
    rw [← hwrap, Int.bmod_eq_of_le] <;> omega
  intro h
  rw [choosePage, bind_eq_ok_iff] at h
  obtain ⟨front, hfront, h⟩ := h
  rw [h0, intnIf, if_pos hlen] at hfront
  cases hfront
  rw [if_neg (by decide), bind_eq_ok_iff] at h
  obtain ⟨i, -, h⟩ := h
  rw [bind_eq_ok_iff] at h
  obtain ⟨bin, hbin, h⟩ := h
  rw [h2, intnIf, if_pos hsize] at hbin
  cases hbin
  rw [bind_eq_ok_iff] at h
  obtain ⟨back, hback, -⟩ := h
  rw [intnIf, if_pos (Nat.zero_mod _), intn, if_pos hneg] at hback
  cases hback

end

/-- Whatever pages were noted before: `alloc` returns pages inside the memory for all numbers that
are drawn exactly if there are three more than are wanted, and the size is an `int` once a page is
used. -/
theorem alloc_within_iff (va : VmaAlloc) (size : UInt64) (hpos : 1 ≤ size.toNat) :
    (∀ draws, ∃ page, va.alloc draws size = .ok (page, va.noteAlloc page size) ∧
      page.toNat + size.toNat ≤ va.numPages.toNat) ↔
    size.toNat + 3 ≤ va.numPages.toNat ∧ (size.toNat < 2 ^ 63 ∨ va.used = []) := by
  constructor
  · intro h
    refine ⟨?_, ?_⟩
    · obtain ⟨page, halloc, hpage⟩ := h fun i => if i = 0 then 0 else if i = 1 then 3 else 1
      rw [alloc, bind_eq_ok_iff] at halloc
      obtain ⟨_, -, halloc⟩ := halloc
      rw [choosePage_third rfl rfl rfl, bind_eq_ok_iff] at halloc
      obtain ⟨page', heq, halloc⟩ := halloc
      obtain ⟨_, -, hret⟩ := bind_eq_ok_iff.1 halloc
      cases heq
      cases hret
      rw [UInt64.toNat_sub, UInt64.toNat_sub] at hpage
      have : (3 : UInt64).toNat = 3 := rfl
      have := size.toNat_lt
      have := va.numPages.toNat_lt
      omega
    · by_contra! hbad
      obtain ⟨page, halloc, -⟩ := h fun i => if i = 0 then 1 else 0
      rw [alloc, bind_eq_ok_iff] at halloc
      obtain ⟨_, -, halloc⟩ := halloc
      obtain ⟨page', hchoose, -⟩ := bind_eq_ok_iff.1 halloc
      exact choosePage_ne_ok hbad.2 hbad.1 rfl rfl page' hchoose
  · rintro ⟨hroom, hint⟩ draws
    obtain ⟨page, hchoose, hpage⟩ := choosePage_spec hpos hroom hint draws
    refine ⟨page, ?_, hpage⟩
    have hsize : ¬ va.numPages < size := by
      rw [UInt64.lt_iff_toNat_lt]
      omega
    have hok : ¬ (va.numPages ≤ page ∨ va.numPages < size ∨ va.numPages < page + size) := by
      rw [UInt64.le_iff_toNat_le, UInt64.lt_iff_toNat_lt, UInt64.lt_iff_toNat_lt, UInt64.toNat_add]
      omega
    refine bind_eq_ok_iff.2 ⟨(), failIf_eq_ok_iff.2 hsize, ?_⟩
    refine bind_eq_ok_iff.2 ⟨page, hchoose, ?_⟩
    exact bind_eq_ok_iff.2 ⟨(), failIf_eq_ok_iff.2 hok, rfl⟩

/-- The last two of 4096 pages. -/
theorem alloc_within_last :
    ∃ page, (newVmaAlloc 4096).alloc id 2 =
        .ok (page, (newVmaAlloc 4096).noteAlloc page 2) ∧ page.toNat + 2 ≤ 4096 :=
  (alloc_within_iff (newVmaAlloc 4096) 2 (by decide)).2 ⟨by decide, .inl (by decide)⟩ id

/-- All 4096 pages of a target, counted back from the last but one. -/
theorem alloc_all_panics : (newVmaAlloc 4096).alloc id 4096 =
    .error "vmaAlloc: bad page=18446744073709551615 size=4096 numPages=4096" := by
  rfl

end VmaAlloc

end KConfuzz
