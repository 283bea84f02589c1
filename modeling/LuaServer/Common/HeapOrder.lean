import LuaServer.Common.Heap

/-!
# HeapOrder — what `heap_insert` and `heap_remove` do to a heap

A heap holds a set of nodes when it is the complete binary tree of them, each of them once, and no
node compares less than its parent.  Insertion of a node that is not in the heap and removal of one
that is keep this, and they come to an end.
-/

open Reasoning

namespace LuaServer

namespace Heap

/-! ## 1. The loops -/

variable {Addr : Type} [DecidableEq Addr] {β : Type} [LinearOrder β] {key : Addr → β}
  {less_than : Addr → Addr → Option Bool} {h : Heap Addr} {a : Nat → Addr} {i n : Nat}
  {S : Finset Addr}

/-- The heap is a complete binary tree of the nodes of `S`, each of them once, and no node has a
smaller key than its parent. -/
def Holds (h : Heap Addr) (key : Addr → β) (S : Finset Addr) : Prop :=
  ∃ a n, Layout h a n ∧ HeapOrdered key a n ∧ elements a n = S

/-- The comparison of the nodes of `S`. -/
def Compares (less_than : Addr → Addr → Option Bool) (key : Addr → β) (S : Finset Addr) : Prop :=
  ∀ x ∈ S, ∀ y ∈ S, less_than x y = some (decide (key x < key y))

theorem Compares.at (h : Compares less_than key (elements a n)) {j : Nat} (hi : 1 ≤ i ∧ i ≤ n)
    (hj : 1 ≤ j ∧ j ≤ n) : less_than (a i) (a j) = some (decide (key (a i) < key (a j))) :=
  h _ (mem_elements_of_le hi) _ (mem_elements_of_le hj)

theorem Layout.walkUp (hl : Layout h a n) (ho : OrderedBelow key a n i) (hi : 1 ≤ i ∧ i ≤ n)
    (hless : Compares less_than key (elements a n)) {fuel : Nat} (hfuel : i ≤ fuel) :
    ∃ h', Heap.walkUp less_than fuel h (a i) = some h' ∧ Holds h' key (elements a n) := by
  induction fuel generalizing h a i with
  | zero => omega
  | succ fuel ih =>
    rw [Heap.walkUp, hl.node i hi, nodeAt]
    by_cases h2 : 2 ≤ i
    · have hparent : 1 ≤ i / 2 ∧ i / 2 ≤ n := by omega
      simp only [place_of_le hparent, hless.at hi hparent]
      by_cases hlt : key (a i) < key (a (i / 2))
      · have helements := elements_exchange (a := a) hparent hi
        have hmove := ih (hl.swap hparent.1 rfl hi.2) (ho.up h2 hi.2 hlt) hparent
          (helements ▸ hless) (by omega)
        rw [exchange_left, helements] at hmove
        simpa only [hlt, decide_true] using hmove
      · simp only [hlt, decide_false]
        exact ⟨h, rfl, a, n, hl, ho.done fun _ => not_lt.mp hlt, rfl⟩
    · rw [show i / 2 = 0 by omega, place_zero]
      exact ⟨h, rfl, a, n, hl, ho.done fun h2' => absurd h2' h2, rfl⟩

theorem smaller_place (hless : Compares less_than key (elements a n)) {k s : Nat} (hk : 1 ≤ k)
    (hs : 1 ≤ s ∧ s ≤ n) : smaller less_than (place a n k) (a s) =
      some (a (if k ≤ n ∧ key (a k) < key (a s) then k else s)) := by
  by_cases hkn : k ≤ n
  · rw [place_of_le ⟨hk, hkn⟩, smaller, hless.at ⟨hk, hkn⟩ hs]
    by_cases hlt : key (a k) < key (a s)
    · simp [hkn, hlt]
    · simp [hlt]
  · rw [place_of_lt (by omega), smaller, if_neg (fun h => hkn h.1)]

/-- The smallest of a node and its children. -/
theorem Layout.smallest (hl : Layout h a n) (hi : 1 ≤ i ∧ i ≤ n)
    (hless : Compares less_than key (elements a n)) :
    ∃ s, (smaller less_than (h.node (a i)).left (a i)).bind
        (smaller less_than (h.node (a i)).right) = some (a s) ∧
      (s = i ∨ 2 ≤ s ∧ s ≤ n ∧ s / 2 = i) ∧
      ∀ k, 2 ≤ k → k ≤ n → k / 2 = i → key (a s) ≤ key (a k) := by
  rw [hl.node i hi, nodeAt]
  simp only
  rw [smaller_place hless (by omega) hi, Option.bind_some]
  generalize hs : (if 2 * i ≤ n ∧ key (a (2 * i)) < key (a i) then 2 * i else i) = s
  have hleft : 2 * i ≤ n → key (a s) ≤ key (a (2 * i)) := by
    intro hn
    rw [← hs]
    split
    · exact le_rfl
    · rename_i hlt
      exact not_lt.mp fun h => hlt ⟨hn, h⟩
  have hsi : s = i ∨ 2 ≤ s ∧ s ≤ n ∧ s / 2 = i := by
    rw [← hs]
    split
    · exact .inr (by omega)
    · exact .inl rfl
  rw [smaller_place hless (by omega) (by omega)]
  by_cases hright : 2 * i + 1 ≤ n ∧ key (a (2 * i + 1)) < key (a s)
  · rw [if_pos hright]
    refine ⟨2 * i + 1, rfl, .inr (by omega), fun k _ hkn hki => ?_⟩
    rcases (show k = 2 * i ∨ k = 2 * i + 1 by omega) with rfl | rfl
    · exact hright.2.le.trans (hleft hkn)
    · exact le_rfl
  · rw [if_neg hright]
    refine ⟨s, rfl, hsi, fun k _ hkn hki => ?_⟩
    rcases (show k = 2 * i ∨ k = 2 * i + 1 by omega) with rfl | rfl
    · exact hleft hkn
    · exact not_lt.mp fun h => hright ⟨hkn, h⟩

theorem Layout.walkDown (hl : Layout h a n) (ho : OrderedAround key a n i) (hi : 1 ≤ i ∧ i ≤ n)
    (hless : Compares less_than key (elements a n)) {fuel : Nat} (hfuel : n < fuel + i) :
    ∃ h' a' i', Heap.walkDown less_than fuel h (a i) = some h' ∧ a' i' = a i ∧ Layout h' a' n ∧
      OrderedBelow key a' n i' ∧ (1 ≤ i' ∧ i' ≤ n) ∧ elements a' n = elements a n := by
  induction fuel generalizing h a i with
  | zero => omega
  | succ fuel ih =>
    obtain ⟨s, hsmallest, hs, hbelow⟩ := hl.smallest hi hless
    rw [Heap.walkDown, hsmallest]
    simp only
    by_cases hsi : s = i
    · subst hsi
      rw [if_pos rfl]
      exact ⟨h, a, s, rfl, rfl, hl, ⟨ho, hbelow⟩, hi, rfl⟩
    · obtain ⟨h2, hsn, hparent⟩ := hs.resolve_left hsi
      have hne : a s ≠ a i := fun heq => hsi (hl.distinct s i (by omega) hi heq)
      have helements := elements_exchange (a := a) hi (show 1 ≤ s ∧ s ≤ n by omega)
      have hmove := ih (hl.swap hi.1 hparent hsn) (ho.down h2 hsn hparent hbelow) (by omega)
        (helements ▸ hless) (by omega)
      rw [exchange_right, helements] at hmove
      rw [if_neg hne]
      exact hmove

/-! ## 2. Insertion and removal -/

theorem Holds.congr {key' : Addr → β} (hh : Holds h key S) (hkey : ∀ x ∈ S, key' x = key x) :
    Holds h key' S := by
  obtain ⟨a, n, hl, ho, rfl⟩ := hh
  exact ⟨a, n, hl, ho.congr fun k hk => hkey _ (mem_elements_of_le hk), rfl⟩

theorem Holds.nelts (hh : Holds h key S) : h.nelts = S.card ∧ S.card < 2 ^ 32 := by
  obtain ⟨a, n, hl, -, rfl⟩ := hh
  rw [hl.distinct.card]
  exact ⟨hl.nelts, hl.small⟩

/-- The root is one of the nodes, and has the smallest key. -/
theorem Holds.min (hh : Holds h key S) :
    h.min = none ∧ S = ∅ ∨ ∃ x ∈ S, h.min = some x ∧ ∀ y ∈ S, key x ≤ key y := by
  obtain ⟨a, n, hl, ho, rfl⟩ := hh
  rw [hl.min]
  rcases Nat.eq_zero_or_pos n with rfl | hn
  · exact .inl ⟨place_of_lt Nat.one_pos, rfl⟩
  · refine .inr ⟨a 1, mem_elements_of_le ⟨le_rfl, hn⟩, place_of_le ⟨le_rfl, hn⟩, fun y hy => ?_⟩
    obtain ⟨k, hk, rfl⟩ := mem_elements.mp hy
    exact ho.root_le hk

/-- The pointers down from the root lead to a node. -/
inductive Reaches (h : Heap Addr) : Addr → Prop
  | min {x : Addr} (hx : h.min = some x) : Reaches h x
  | left {x y : Addr} (hx : Reaches h x) (hy : (h.node x).left = some y) : Reaches h y
  | right {x y : Addr} (hx : Reaches h x) (hy : (h.node x).right = some y) : Reaches h y

theorem Holds.mem_of_reaches (hh : Holds h key S) {x : Addr} (hx : Reaches h x) : x ∈ S := by
  obtain ⟨a, n, hl, -, rfl⟩ := hh
  induction hx with
  | min hx =>
    rw [hl.min] at hx
    exact mem_of_place hx
  | left _ hy ih =>
    obtain ⟨k, hk, rfl⟩ := mem_elements.mp ih
    rw [hl.node k hk] at hy
    exact mem_of_place hy
  | right _ hy ih =>
    obtain ⟨k, hk, rfl⟩ := mem_elements.mp ih
    rw [hl.node k hk] at hy
    exact mem_of_place hy

theorem holds_init [Inhabited Addr] (node : Addr → HeapNode Addr) :
    Holds ⟨node, none, 0⟩ key ∅ :=
  ⟨fun _ => default, 0,
    ⟨rfl, by omega, rfl, fun k hk => absurd hk (by omega), fun i j hi => absurd hi (by omega)⟩,
    fun k h2 hk => absurd hk (by omega), rfl⟩

theorem heap_insert_holds (hh : Holds h key S) {x : Addr} (hx : x ∉ S)
    (hsmall : S.card + 1 < 2 ^ 32) (hless : Compares less_than key (insert x S)) :
    ∃ h', heap_insert less_than h x = some h' ∧ Holds h' key (insert x S) := by
  obtain ⟨a, n, hl, ho, rfl⟩ := hh
  rw [hl.distinct.card] at hsmall
  have hne : ∀ k, 1 ≤ k ∧ k ≤ n → some x ≠ some (a k) := by
    intro k hk heq
    exact hx (Option.some.inj heq ▸ mem_elements_of_le hk)
  -- the node on its own
  obtain ⟨h1, hh1⟩ : ∃ h1, h1 = h.write x fun _ => ⟨none, none, none⟩ := ⟨_, rfl⟩
  have hl1 : Layout h1 a n := hh1 ▸ hl.other rfl rfl fun k hk => if_neg (hne k hk)
  have hnode1 : h1.node x = ⟨none, none, none⟩ := by rw [hh1, write_self]
  -- the node with its parent
  obtain ⟨h2, hh2⟩ : ∃ h2, h2 = h1.write x fun m => { m with parent := place a n ((n + 1) / 2) } :=
    ⟨_, rfl⟩
  have hl2 : Layout h2 a n := hh2 ▸ hl1.other rfl rfl fun k hk => if_neg (hne k hk)
  have hnode2 : h2.node x = ⟨none, none, place a n ((n + 1) / 2)⟩ := by
    rw [hh2, write_self, hnode1]
  -- the node at the end of the bottom row
  obtain ⟨h3, hh3⟩ : ∃ h3 : Heap Addr, h3 =
      { h2.set (slotOf a (n + 1)) (some x) with nelts := (n + 1) % 2 ^ 32 } := ⟨_, rfl⟩
  have hl3 : Layout h3 (Function.update a (n + 1) x) (n + 1) := hh3 ▸ hl2.append hx hsmall hnode2
  have hup := hl3.walkUp (ho.append x) (by omega) (by rw [elements_append]; exact hless)
    (show n + 1 ≤ h3.nelts + 1 by rw [hl3.nelts]; omega)
  rw [Function.update_self, elements_append] at hup
  rw [heap_insert, ← hh1, show (1 + h1.nelts) % 2 ^ 32 = n + 1 by rw [hl1.nelts]; omega,
    hl1.walkTo (by omega) (by omega) hsmall]
  simp only [hl1.get_parentSlot, ← hh2, set_nelts, hl2.nelts, ← hh3]
  rw [hh3] at hup ⊢
  exact hup

theorem heap_remove_holds (hh : Holds h key S) {x : Addr} (hx : x ∈ S)
    (hless : Compares less_than key (S.erase x)) :
    ∃ h', heap_remove less_than h x = some h' ∧ Holds h' key (S.erase x) := by
  obtain ⟨a, n, hl, ho, rfl⟩ := hh
  obtain ⟨i, hi, rfl⟩ := mem_elements.mp hx
  obtain ⟨n, rfl⟩ : ∃ m, n = m + 1 := ⟨n - 1, by omega⟩
  obtain ⟨h1, hh1⟩ : ∃ h1, h1 = Heap.set { h with nelts := h.nelts - 1 } (slotOf a (n + 1)) none :=
    ⟨_, rfl⟩
  have hl1 : Layout h1 a n := hh1 ▸ hl.unlink
  have hmax : Heap.get { h with nelts := h.nelts - 1 } (slotOf a (n + 1)) = some (a (n + 1)) := by
    rw [get_nelts, hl.get_slotOf (by omega) (by omega), place_of_le (by omega)]
  have hout : a (n + 1) ∉ elements a n := by
    rw [hl.distinct.last.2]
    exact Finset.notMem_erase _ _
  rw [heap_remove, if_neg (by rw [hl.nelts]; omega)]
  have hwalk : h.walkTo h.nelts = some (parentSlot a (n + 1), slotOf a (n + 1)) := by
    rw [hl.nelts, hl.walkTo (by omega) (by omega) hl.small]
  simp only [hwalk, hmax, ← hh1, Option.some.injEq]
  by_cases hlast : a (n + 1) = a i
  · have hmin : some (a (n + 1)) ≠ h1.min := by
      rw [hl1.min]
      exact fun heq => hout (mem_of_place heq.symm)
    rw [if_pos hlast, if_neg hmin]
    refine ⟨h1, rfl, a, n, hl1, ho.last, ?_⟩
    rw [← hlast]
    exact hl.distinct.last.2
  · have hin : 1 ≤ i ∧ i ≤ n := by
      refine ⟨hi.1, Nat.lt_succ_iff.mp (lt_of_le_of_ne hi.2 ?_)⟩
      rintro rfl
      exact hlast rfl
    obtain ⟨hdistinct, helements⟩ := hl.distinct.replace hin
    have hl2 := hl1.replace hin hout hdistinct
    have hplace : Function.update a i (a (n + 1)) i = a (n + 1) := Function.update_self _ _ _
    obtain ⟨h3, a3, i3, hdown, hchild, hl3, hbelow, hi3, helements3⟩ :=
      hl2.walkDown (ho.replace (a (n + 1))) hin (helements ▸ hless)
        (show n < (h1.replace (a i) (a (n + 1))).nelts + 1 + i by rw [hl2.nelts]; omega)
    have hup := hl3.walkUp hbelow hi3 (by rwa [helements3, helements])
      (show i3 ≤ h3.nelts + 1 by rw [hl3.nelts]; omega)
    rw [hchild, hplace, helements3, helements] at hup
    rw [hplace] at hdown
    rw [if_neg hlast, hdown, Option.bind_some]
    exact hup

theorem walkUp_nelts {fuel : Nat} {h h' : Heap Addr} {x : Addr}
    (hup : walkUp less_than fuel h x = some h') : h'.nelts = h.nelts := by
  induction fuel generalizing h with
  | zero => cases hup
  | succ fuel ih =>
    rw [walkUp] at hup
    split at hup
    · cases hup
      rfl
    split at hup
    · cases hup
    · rw [ih hup, heap_node_swap_nelts]
    · cases hup
      rfl

theorem heap_insert_nelts {h h' : Heap Addr} {x : Addr}
    (hinsert : heap_insert less_than h x = some h') : h'.nelts = (h.nelts + 1) % 2 ^ 32 := by
  rw [heap_insert] at hinsert
  split at hinsert
  · cases hinsert
  · rw [walkUp_nelts hinsert]
    simp only [set_nelts]
    rfl

end Heap

end LuaServer
