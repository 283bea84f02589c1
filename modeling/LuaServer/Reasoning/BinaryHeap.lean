import Mathlib.Data.Finset.Image
import Mathlib.Order.Interval.Finset.Nat
import Mathlib.Tactic.Common

/-!
# BinaryHeap — the order of a binary heap, by positions

A heap of `n` elements is a function on the positions `1, …, n`; the children of position `i` are
`2 * i` and `2 * i + 1`.  Elements are compared by a key.  A new element is moved up, and one that
has replaced another is moved down and then up; each move exchanges a position with a child of it.
-/

namespace Reasoning

variable {α β : Type*} {a : Nat → α} {i j k n : Nat}

/-! ## 1. Exchanging two positions -/

def exchange (a : Nat → α) (i j : Nat) : Nat → α := fun k => a (Equiv.swap i j k)

@[simp] theorem exchange_left (a : Nat → α) (i j : Nat) : exchange a i j i = a j := by
  simp [exchange]

@[simp] theorem exchange_right (a : Nat → α) (i j : Nat) : exchange a i j j = a i := by
  simp [exchange]

theorem exchange_of_ne (hi : k ≠ i) (hj : k ≠ j) : exchange a i j k = a k := by
  rw [exchange, Equiv.swap_apply_of_ne_of_ne hi hj]

theorem swap_le (hi : 1 ≤ i ∧ i ≤ n) (hj : 1 ≤ j ∧ j ≤ n) (hk : 1 ≤ k ∧ k ≤ n) :
    1 ≤ Equiv.swap i j k ∧ Equiv.swap i j k ≤ n := by
  rw [Equiv.swap_apply_def]
  split
  · exact hj
  split
  · exact hi
  · exact hk

/-! ## 2. The elements -/

/-- The elements at the positions `1, …, n`. -/
def elements [DecidableEq α] (a : Nat → α) (n : Nat) : Finset α := (Finset.Icc 1 n).image a

/-- No element is at two positions. -/
def Distinct (a : Nat → α) (n : Nat) : Prop :=
  ∀ i j, 1 ≤ i ∧ i ≤ n → 1 ≤ j ∧ j ≤ n → a i = a j → i = j

theorem Distinct.eq_iff (h : Distinct a n) (hi : 1 ≤ i ∧ i ≤ n) (hj : 1 ≤ j ∧ j ≤ n) :
    a i = a j ↔ i = j :=
  ⟨h i j hi hj, congrArg a⟩

theorem Distinct.exchange (h : Distinct a n) (hi : 1 ≤ i ∧ i ≤ n) (hj : 1 ≤ j ∧ j ≤ n) :
    Distinct (exchange a i j) n := fun _ _ hk hl heq =>
  (Equiv.swap i j).injective (h _ _ (swap_le hi hj hk) (swap_le hi hj hl) heq)

section
variable [DecidableEq α] {x : α}

theorem mem_elements : x ∈ elements a n ↔ ∃ k, (1 ≤ k ∧ k ≤ n) ∧ a k = x := by
  simp only [elements, Finset.mem_image, Finset.mem_Icc]

theorem mem_elements_of_le (hk : 1 ≤ k ∧ k ≤ n) : a k ∈ elements a n :=
  mem_elements.mpr ⟨k, hk, rfl⟩

theorem Distinct.card (h : Distinct a n) : (elements a n).card = n := by
  rw [elements, Finset.card_image_of_injOn, Nat.card_Icc, Nat.add_sub_cancel]
  intro i hi j hj heq
  exact h i j (Finset.mem_Icc.mp hi) (Finset.mem_Icc.mp hj) heq

theorem elements_exchange (hi : 1 ≤ i ∧ i ≤ n) (hj : 1 ≤ j ∧ j ≤ n) :
    elements (exchange a i j) n = elements a n := by
  ext x
  rw [mem_elements, mem_elements]
  constructor
  · rintro ⟨k, hk, rfl⟩
    exact ⟨_, swap_le hi hj hk, rfl⟩
  · rintro ⟨k, hk, rfl⟩
    exact ⟨_, swap_le hi hj hk, by rw [exchange, Equiv.swap_apply_self]⟩

/-- The last position is filled. -/
theorem elements_append : elements (Function.update a (n + 1) x) (n + 1) =
    insert x (elements a n) := by
  ext y
  rw [mem_elements, Finset.mem_insert, mem_elements]
  constructor
  · rintro ⟨k, hk, rfl⟩
    by_cases hlast : k = n + 1
    · exact .inl (by rw [hlast, Function.update_self])
    · exact .inr ⟨k, by omega, (Function.update_of_ne hlast _ _).symm⟩
  · rintro (rfl | ⟨k, hk, rfl⟩)
    · exact ⟨n + 1, by omega, Function.update_self _ _ _⟩
    · exact ⟨k, by omega, Function.update_of_ne (by omega) _ _⟩

theorem Distinct.append (h : Distinct a n) (hx : x ∉ elements a n) :
    Distinct (Function.update a (n + 1) x) (n + 1) := by
  have hne : ∀ k, 1 ≤ k ∧ k ≤ n → a k ≠ x := fun k hk heq => hx (heq ▸ mem_elements_of_le hk)
  intro i j hi hj heq
  by_cases hi' : i = n + 1 <;> by_cases hj' : j = n + 1
  · rw [hi', hj']
  · rw [hi', Function.update_self, Function.update_of_ne hj'] at heq
    exact absurd heq.symm (hne j (by omega))
  · rw [hj', Function.update_self, Function.update_of_ne hi'] at heq
    exact absurd heq (hne i (by omega))
  · rw [Function.update_of_ne hi', Function.update_of_ne hj'] at heq
    exact h i j (by omega) (by omega) heq

theorem Distinct.last (h : Distinct a (n + 1)) :
    Distinct a n ∧ elements a n = (elements a (n + 1)).erase (a (n + 1)) := by
  refine ⟨fun i j hi hj => h i j (by omega) (by omega), ?_⟩
  ext y
  rw [Finset.mem_erase, mem_elements, mem_elements]
  constructor
  · rintro ⟨k, hk, rfl⟩
    refine ⟨fun heq => ?_, k, by omega, rfl⟩
    have := h k (n + 1) (by omega) (by omega) heq
    omega
  · rintro ⟨hne, k, hk, rfl⟩
    refine ⟨k, ⟨hk.1, ?_⟩, rfl⟩
    by_contra hlt
    obtain rfl : k = n + 1 := by omega
    exact hne rfl

/-- The last element takes the place of another one. -/
theorem Distinct.replace (h : Distinct a (n + 1)) (hi : 1 ≤ i ∧ i ≤ n) :
    Distinct (Function.update a i (a (n + 1))) n ∧
      elements (Function.update a i (a (n + 1))) n = (elements a (n + 1)).erase (a i) := by
  -- the same as exchanging the two and leaving out the last
  have hdistinct := (h.exchange (by omega : 1 ≤ i ∧ i ≤ n + 1) (by omega : 1 ≤ n + 1 ∧ _)).last
  have hupdate : ∀ k, 1 ≤ k ∧ k ≤ n →
      Function.update a i (a (n + 1)) k = Reasoning.exchange a i (n + 1) k := by
    intro k hk
    by_cases hki : k = i
    · rw [hki, Function.update_self, exchange_left]
    · rw [Function.update_of_ne hki, exchange_of_ne hki (by omega)]
  have hcongr : elements (Function.update a i (a (n + 1))) n =
      elements (Reasoning.exchange a i (n + 1)) n :=
    Finset.image_congr fun k hk => hupdate k (Finset.mem_Icc.mp hk)
  rw [hcongr, hdistinct.2, exchange_right, elements_exchange (by omega) (by omega)]
  refine ⟨fun k l hk hl => ?_, rfl⟩
  rw [hupdate k hk, hupdate l hl]
  exact hdistinct.1 k l hk hl

end

/-! ## 3. The order -/

variable [LinearOrder β] (key : α → β)

/-- No element has a smaller key than its parent. -/
def HeapOrdered (a : Nat → α) (n : Nat) : Prop :=
  ∀ k, 2 ≤ k → k ≤ n → key (a (k / 2)) ≤ key (a k)

/-- Ordered where position `i` has no part, and past it. -/
structure OrderedAround (a : Nat → α) (n i : Nat) : Prop where
  edge : ∀ k, 2 ≤ k → k ≤ n → k ≠ i → k / 2 ≠ i → key (a (k / 2)) ≤ key (a k)
  past : 2 ≤ i → ∀ k, k ≤ n → k / 2 = i → key (a (i / 2)) ≤ key (a k)

/-- The children of position `i` have no smaller keys either. -/
structure OrderedBelow (a : Nat → α) (n i : Nat) : Prop extends OrderedAround key a n i where
  below : ∀ k, 2 ≤ k → k ≤ n → k / 2 = i → key (a i) ≤ key (a k)

variable {key}

theorem HeapOrdered.congr {key' : α → β} (h : HeapOrdered key a n)
    (hkey : ∀ k, 1 ≤ k ∧ k ≤ n → key' (a k) = key (a k)) : HeapOrdered key' a n := by
  intro k h2 hn
  rw [hkey k (by omega), hkey (k / 2) (by omega)]
  exact h k h2 hn

/-- The root has the smallest key. -/
theorem HeapOrdered.root_le (h : HeapOrdered key a n) (hk : 1 ≤ k ∧ k ≤ n) :
    key (a 1) ≤ key (a k) := by
  induction k using Nat.strongRecOn with
  | ind k ih =>
    rcases Nat.lt_or_ge k 2 with hlt | hge
    · obtain rfl : k = 1 := by omega
      exact le_rfl
    · exact (ih (k / 2) (by omega) (by omega)).trans (h k hge hk.2)

/-- One move up. -/
theorem OrderedBelow.up (h : OrderedBelow key a n i) (hi : 2 ≤ i) (hn : i ≤ n)
    (hlt : key (a i) < key (a (i / 2))) : OrderedBelow key (exchange a (i / 2) i) n (i / 2) := by
  have hne : i / 2 ≠ i := by omega
  have hother : ∀ k, k ≠ i / 2 → k ≠ i → exchange a (i / 2) i k = a k :=
    fun _ hk hk' => exchange_of_ne hk hk'
  refine ⟨⟨?_, ?_⟩, ?_⟩
  · intro k h2 hkn hk hk2
    have hki : k ≠ i := by
      rintro rfl
      exact hk2 rfl
    rw [hother k hk hki]
    by_cases hparent : k / 2 = i
    · rw [hparent, exchange_right]
      exact h.past hi k hkn hparent
    · rw [hother _ hk2 hparent]
      exact h.edge k h2 hkn hki hparent
  · intro h2 k hkn hk
    have hup := h.edge (i / 2) h2 (by omega) hne (by omega)
    rw [hother (i / 2 / 2) (by omega) (by omega)]
    by_cases hki : k = i
    · rw [hki, exchange_right]
      exact hup
    · rw [hother k (by omega) hki]
      have hedge := h.edge k (by omega) hkn hki (by omega)
      rw [hk] at hedge
      exact hup.trans hedge
  · intro k h2 hkn hk
    rw [exchange_left]
    by_cases hki : k = i
    · rw [hki, exchange_right]
      exact hlt.le
    · rw [hother k (by omega) hki]
      have hedge := h.edge k h2 hkn hki (by omega)
      rw [hk] at hedge
      exact hlt.le.trans hedge

theorem OrderedBelow.done (h : OrderedBelow key a n i)
    (hup : 2 ≤ i → key (a (i / 2)) ≤ key (a i)) : HeapOrdered key a n := by
  intro k h2 hkn
  by_cases hki : k = i
  · subst hki
    exact hup h2
  by_cases hparent : k / 2 = i
  · rw [hparent]
    exact h.below k h2 hkn hparent
  · exact h.edge k h2 hkn hki hparent

/-- One move down, to the smaller child. -/
theorem OrderedAround.down (h : OrderedAround key a n i) (hj : 2 ≤ j) (hn : j ≤ n) (hji : j / 2 = i)
    (hsmall : ∀ k, 2 ≤ k → k ≤ n → k / 2 = i → key (a j) ≤ key (a k)) :
    OrderedAround key (exchange a i j) n j := by
  have hother : ∀ k, k ≠ i → k ≠ j → exchange a i j k = a k :=
    fun _ hk hk' => exchange_of_ne hk hk'
  refine ⟨?_, ?_⟩
  · intro k h2 hkn hkj hparent
    by_cases hki : k = i
    · subst hki
      rw [exchange_left, hother _ (by omega) hparent]
      exact h.past h2 j hn hji
    · rw [hother k hki hkj]
      by_cases hsibling : k / 2 = i
      · rw [hsibling, exchange_left]
        exact hsmall k h2 hkn hsibling
      · rw [hother _ hsibling hparent]
        exact h.edge k h2 hkn hki hsibling
  · intro _ k hkn hk
    rw [hji, exchange_left, hother k (by omega) (by omega), ← hk]
    exact h.edge k (by omega) hkn (by omega) (by omega)

theorem HeapOrdered.append (h : HeapOrdered key a n) (x : α) :
    OrderedBelow key (Function.update a (n + 1) x) (n + 1) (n + 1) := by
  refine ⟨⟨?_, fun _ k _ _ => by omega⟩, fun k _ _ _ => by omega⟩
  intro k h2 hkn hk hparent
  rw [Function.update_of_ne hk, Function.update_of_ne hparent]
  exact h k h2 (by omega)

theorem HeapOrdered.replace (h : HeapOrdered key a (n + 1)) (x : α) :
    OrderedAround key (Function.update a i x) n i := by
  refine ⟨?_, ?_⟩
  · intro k h2 hkn hk hparent
    rw [Function.update_of_ne hk, Function.update_of_ne hparent]
    exact h k h2 (by omega)
  · intro h2 k hkn hk
    rw [Function.update_of_ne (by omega), Function.update_of_ne (by omega)]
    have hchild := h k (by omega) (by omega)
    rw [hk] at hchild
    exact (h i h2 (by omega)).trans hchild

theorem HeapOrdered.last (h : HeapOrdered key a (n + 1)) : HeapOrdered key a n :=
  fun k h2 hkn => h k h2 (by omega)

end Reasoning
