import Mathlib.Data.List.Basic
import Mathlib.Order.Lattice
import Mathlib.Tactic.Common

/-!
# Bisection — a sorted list between two bounds

The bounds of a binary search leave out smaller elements on the left and larger ones on the right.
An interval that only its left bound has moved in is a part of the list that ends with it, and what is
left of the list is halved by every turn.
-/

namespace Reasoning

variable {α : Type*} [LinearOrder α] {arr : List α} {x a : α} {lo hi m : Nat}

/-- Elements equal to `x` stand at indices from `lo` on and below `hi`. -/
structure Bracket (arr : List α) (x : α) (lo hi : Nat) : Prop where
  le_length : hi ≤ arr.length
  below : ∀ i < lo, ∀ a ∈ arr[i]?, a < x
  above : ∀ i, hi ≤ i → ∀ a ∈ arr[i]?, x < a

theorem le_of_le_index (hs : arr.Pairwise (· ≤ ·)) {i j : Nat} (hij : i ≤ j) {b : α}
    (hi : arr[i]? = some a) (hj : arr[j]? = some b) : a ≤ b := by
  obtain ⟨hlti, rfl⟩ := List.getElem?_eq_some_iff.mp hi
  obtain ⟨hltj, rfl⟩ := List.getElem?_eq_some_iff.mp hj
  by_cases heq : i = j
  · subst heq
    exact le_refl _
  · exact List.pairwise_iff_getElem.mp hs i j hlti hltj (by omega)

theorem Bracket.whole (arr : List α) (x : α) : Bracket arr x 0 arr.length where
  le_length := Nat.le_refl _
  below i hi := absurd hi (Nat.not_lt_zero i)
  above i hi a ha := by
    rw [List.getElem?_eq_none hi] at ha
    cases ha

theorem Bracket.right (h : Bracket arr x lo hi) (hs : arr.Pairwise (· ≤ ·))
    (hm : arr[m]? = some a) (hlt : a < x) : Bracket arr x (m + 1) hi where
  le_length := h.le_length
  below _ hi _ hb := lt_of_le_of_lt (le_of_le_index hs (Nat.le_of_lt_succ hi) hb hm) hlt
  above := h.above

theorem Bracket.left (h : Bracket arr x lo hi) (hs : arr.Pairwise (· ≤ ·))
    (hm : arr[m]? = some a) (hlt : x < a) : Bracket arr x lo m where
  le_length := Nat.le_of_lt (List.getElem?_eq_some_iff.mp hm).1
  below := h.below
  above _ hi _ hb := lt_of_lt_of_le hlt (le_of_le_index hs hi hm hb)

theorem Bracket.not_mem (h : Bracket arr x lo hi) (hle : hi ≤ lo) : x ∉ arr := by
  intro hx
  obtain ⟨i, hi⟩ := List.mem_iff_getElem?.mp hx
  by_cases hlt : i < lo
  · exact lt_irrefl x (h.below i hlt x hi)
  · exact lt_irrefl x (h.above i (by omega) x hi)

/-- The middle of the last `e` of `n` places has half of them behind it. -/
theorem middle_of_last {n e : Nat} (hpos : 0 < e) (hle : e ≤ n) :
    (n - e + (n - 1)) / 2 = n - 1 - e / 2 := by
  omega

end Reasoning
