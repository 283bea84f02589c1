import Mathlib.Data.List.Pairwise
import Mathlib.Tactic.Common

/-!
# SerialWindow — elements in the order of their distance from a base

A queue of numbered elements is kept in the order of the numbers, where a number counts by its
distance from a base.  All distances are below the size of the window, so the queue is not longer.
-/

namespace Reasoning

variable {α : Type*} {f g : α → ℕ} {size : ℕ} {l l' front back : List α} {x : α}

/-- The distances `f` increase along the list, and stay below `size`. -/
structure InWindow (f : α → ℕ) (size : ℕ) (l : List α) : Prop where
  sorted : l.Pairwise fun x y => f x < f y
  within : ∀ x ∈ l, f x < size

namespace InWindow

theorem nil : InWindow f size [] := ⟨.nil, fun _ h => absurd h List.not_mem_nil⟩

theorem sublist (h : InWindow f size l) (hsub : l'.Sublist l) : InWindow f size l' :=
  ⟨h.sorted.sublist hsub, fun x hx => h.within x (hsub.subset hx)⟩

/-- There is room for no more elements than there are distances. -/
theorem length_le_sub (h : InWindow f size l) {low : ℕ} (hlow : ∀ x ∈ l, low ≤ f x) :
    l.length ≤ size - low := by
  induction l generalizing low with
  | nil => exact Nat.zero_le _
  | cons x l ih =>
    have hsorted := List.pairwise_cons.mp h.sorted
    have hx := hlow x List.mem_cons_self
    have hsize := h.within x List.mem_cons_self
    have hrest : l.length ≤ size - (f x + 1) :=
      ih (h.sublist (List.sublist_cons_self x l)) hsorted.1
    rw [List.length_cons]
    omega

theorem length_le (h : InWindow f size l) : l.length ≤ size :=
  h.length_le_sub fun _ _ => Nat.zero_le _

/-- An element enters between those below and those above. -/
theorem insert (h : InWindow f size (front ++ back)) (hfront : ∀ y ∈ front, f y < f x)
    (hback : ∀ y ∈ back, f x < f y) (hx : f x < size) :
    InWindow f size (front ++ x :: back) := by
  obtain ⟨hsorted, hsorted', hcross⟩ := List.pairwise_append.mp h.sorted
  refine ⟨List.pairwise_append.mpr ⟨hsorted, List.pairwise_cons.mpr ⟨hback, hsorted'⟩, ?_⟩, ?_⟩
  · intro y hy z hz
    rcases List.mem_cons.mp hz with rfl | hz
    · exact hfront y hy
    · exact hcross y hy z hz
  · intro y hy
    rcases List.mem_append.mp hy with hy | hy
    · exact h.within y (List.mem_append_left _ hy)
    rcases List.mem_cons.mp hy with rfl | hy
    · exact hx
    · exact h.within y (List.mem_append_right _ hy)

/-- The base moves: all distances become smaller by the same. -/
theorem rebase {d size' : ℕ} (h : InWindow f size l) (hg : ∀ x ∈ l, g x + d = f x)
    (hsize : size ≤ size' + d) : InWindow g size' l := by
  constructor
  · refine h.sorted.imp_of_mem fun hx hy hlt => ?_
    have hgx := hg _ hx
    have hgy := hg _ hy
    omega
  · intro x hx
    have hgx := hg x hx
    have hlt := h.within x hx
    omega

/-- Elements are known by their distances only. -/
theorem map {β : Type*} {g : β → ℕ} {m : List β} (h : InWindow f size l)
    (hmap : m.map g = l.map f) : InWindow g size m := by
  constructor
  · rw [← List.pairwise_map (R := (· < ·)), hmap]
    exact List.pairwise_map.mpr h.sorted
  · intro y hy
    have hmem : g y ∈ l.map f := hmap ▸ List.mem_map_of_mem hy
    obtain ⟨x, hx, hfx⟩ := List.mem_map.mp hmem
    exact hfx ▸ h.within x hx

end InWindow

end Reasoning
