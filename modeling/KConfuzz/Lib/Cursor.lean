import Mathlib.Data.List.Basic

/-!
# Readers of a log

A reader of a log that only grows has a position, and has been given the entries between the
position it started at and the one it is at, as far as they pass its filter. The position may skip
entries that do not pass (`filter_segment_skip`), and is moved behind the next one that does
(`filter_segment_next`).
-/

namespace Lib.Cursor

open List

variable {α : Type} {l l' : List α} {a : α} {s m e i : ℕ} {p : α → Bool}

/-- The entries from position `s` to before position `e`. -/
def segment (l : List α) (s e : ℕ) : List α := (l.take e).drop s

lemma mem_segment : a ∈ segment l s e ↔ ∃ i, s ≤ i ∧ i < e ∧ l[i]? = some a := by
  simp only [segment, mem_iff_getElem?, getElem?_drop, getElem?_take, Option.ite_none_right_eq_some]
  constructor
  · rintro ⟨j, hj, ha⟩
    exact ⟨s + j, Nat.le_add_right s j, hj, ha⟩
  · rintro ⟨i, hs, he, ha⟩
    obtain ⟨j, rfl⟩ := Nat.exists_eq_add_of_le hs
    exact ⟨j, he, ha⟩

@[simp] lemma segment_self (l : List α) (s : ℕ) : segment l s s = [] := by
  rw [segment, drop_eq_nil_iff, length_take]
  omega

lemma segment_of_append (h : e ≤ l.length) : segment (l ++ l') s e = segment l s e := by
  rw [segment, take_append_of_le_length h, segment]

lemma segment_length (l : List α) (s : ℕ) : segment l s l.length = l.drop s := by
  rw [segment, take_length]

lemma segment_append (hs : s ≤ m) (hm : m ≤ e) :
    segment l s m ++ segment l m e = segment l s e := by
  have hfirst : segment l s m = (segment l s e).take (m - s) := by
    rw [segment, segment, ← drop_take, take_take]
    congr 2
    omega
  have hsecond : segment l m e = (segment l s e).drop (m - s) := by
    rw [segment, segment, drop_drop]
    congr 1
    omega
  rw [hfirst, hsecond, take_append_drop]

lemma segment_succ (hs : s ≤ i) (ha : l[i]? = some a) :
    segment l s (i + 1) = segment l s i ++ [a] := by
  rw [← segment_append hs (Nat.le_succ i)]
  congr 1
  rw [segment, take_add_one, ha]
  have hi : i < l.length := (List.getElem?_eq_some_iff.mp ha).1
  rw [drop_append_of_le_length (by rw [length_take]; omega), drop_eq_nil_iff.mpr]
  · rfl
  · rw [length_take]
    omega

lemma filter_segment_skip (hs : s ≤ m) (hm : m ≤ e)
    (hnone : ∀ i a, m ≤ i → i < e → l[i]? = some a → p a = false) :
    (segment l s e).filter p = (segment l s m).filter p := by
  have hskipped : (segment l m e).filter p = [] := by
    rw [filter_eq_nil_iff]
    intro a ha
    obtain ⟨i, hi, he, hget⟩ := mem_segment.1 ha
    simp [hnone i a hi he hget]
  rw [← segment_append hs hm, filter_append, hskipped, append_nil]

lemma filter_segment_next (hs : s ≤ m) (hm : m ≤ i) (ha : l[i]? = some a)
    (hnone : ∀ j b, m ≤ j → j < i → l[j]? = some b → p b = false) :
    (segment l s (i + 1)).filter p = (segment l s m).filter p ++ [a].filter p := by
  rw [segment_succ (Nat.le_trans hs hm) ha, filter_append, filter_segment_skip hs hm hnone]

end Lib.Cursor
