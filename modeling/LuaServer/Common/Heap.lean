import LuaServer.Reasoning.BinaryHeap

/-!
# Heap — the binary heap of nodes that point to each other

A node of the heap points to its children and its parent, and is part of an object of the caller's.
`heap_insert` and `heap_remove` find the end of the bottom row by the bits of the number of nodes.
A function gives none where it would follow a null pointer or a loop does not end.

`Layout` says which node is at which position.  In a heap with a layout the functions do on the
positions what they should.
-/

open Reasoning

namespace LuaServer

@[ext]
structure HeapNode (Addr : Type) where
  left : Option Addr
  right : Option Addr
  parent : Option Addr

/-- `struct heap`, with what is in the nodes. -/
structure Heap (Addr : Type) where
  node : Addr → HeapNode Addr
  min : Option Addr
  -- an `unsigned int`
  nelts : Nat

namespace Heap

variable {Addr : Type}

/-! ## 1. The functions -/

section
variable [DecidableEq Addr]

/-- A write through a pointer, if it is not null. -/
def write (h : Heap Addr) (o : Option Addr) (f : HeapNode Addr → HeapNode Addr) : Heap Addr :=
  { h with node := fun x => if o = some x then f (h.node x) else h.node x }

/-- `new` comes below `parent` in the place of `old`, or becomes the root. -/
def relink (h : Heap Addr) (parent : Option Addr) (old new : Addr) : Heap Addr :=
  match parent with
  | none => { h with min := some new }
  | some g =>
    if (h.node g).left = some old then h.write g fun n => { n with left := some new }
    else h.write g fun n => { n with right := some new }

def heap_node_swap (h : Heap Addr) (parent child : Addr) : Heap Addr :=
  let t := h.node parent
  let h := h.write parent fun _ => h.node child
  let h := h.write child fun _ => t
  let h := h.write parent fun n => { n with parent := some child }
  let isLeft := (h.node child).left = some child
  let sibling := if isLeft then (h.node child).right else (h.node child).left
  let h := h.write child fun n =>
    if isLeft then { n with left := some parent } else { n with right := some parent }
  let h := h.write sibling fun n => { n with parent := some child }
  let h := h.write (h.node parent).left fun n => { n with parent := some parent }
  let h := h.write (h.node parent).right fun n => { n with parent := some parent }
  h.relink (h.node child).parent parent child

/-- A `struct heap_node **`. -/
inductive Slot (Addr : Type)
  | min
  | left (p : Addr)
  | right (p : Addr)

def get (h : Heap Addr) : Slot Addr → Option Addr
  | .min => h.min
  | .left p => (h.node p).left
  | .right p => (h.node p).right

def set (h : Heap Addr) (slot : Slot Addr) (o : Option Addr) : Heap Addr :=
  match slot with
  | .min => { h with min := o }
  | .left p => h.write p fun n => { n with left := o }
  | .right p => h.write p fun n => { n with right := o }

/-- The loop that gathers the bits of `n`: `k` and `path`.  An `unsigned int` has 32 of them. -/
def pathLoop : Nat → Nat → Nat → Nat → Nat × Nat
  | 0, _, k, path => (k, path)
  | fuel + 1, n, k, path =>
    if 2 ≤ n then pathLoop fuel (n / 2) (k + 1) (2 * path + n % 2) else (k, path)

/-- The loop along the path, with `parent` and `child`. -/
def walk (h : Heap Addr) : Nat → Nat → Slot Addr → Slot Addr → Option (Slot Addr × Slot Addr)
  | 0, _, parent, child => some (parent, child)
  | k + 1, path, _, child =>
    match h.get child with
    | none => none
    | some c => walk h k (path / 2) child (if path % 2 = 1 then .right c else .left c)

/-- The way from the root to the position `n`. -/
def walkTo (h : Heap Addr) (n : Nat) : Option (Slot Addr × Slot Addr) :=
  h.walk (pathLoop 32 n 0 0).1 (pathLoop 32 n 0 0).2 .min .min

/-- Replace the to be deleted node with the max node. -/
def replace (h : Heap Addr) (node child : Addr) : Heap Addr :=
  let h := h.write child fun _ => h.node node
  let h := h.write (h.node child).left fun n => { n with parent := some child }
  let h := h.write (h.node child).right fun n => { n with parent := some child }
  h.relink (h.node node).parent node child

variable (less_than : Addr → Addr → Option Bool)

/-- The loop up the tree. -/
def walkUp : Nat → Heap Addr → Addr → Option (Heap Addr)
  | 0, _, _ => none
  | fuel + 1, h, node =>
    match (h.node node).parent with
    | none => some h
    | some parent =>
      match less_than node parent with
      | none => none
      | some true => walkUp fuel (h.heap_node_swap parent node) node
      | some false => some h

/-- `if (o != NULL && less_than(o, smallest)) smallest = o;` -/
def smaller (o : Option Addr) (smallest : Addr) : Option Addr :=
  match o with
  | none => some smallest
  | some x => (less_than x smallest).map fun less => if less then x else smallest

/-- The loop down the subtree. -/
def walkDown : Nat → Heap Addr → Addr → Option (Heap Addr)
  | 0, _, _ => none
  | fuel + 1, h, child =>
    match (smaller less_than (h.node child).left child).bind
        (smaller less_than (h.node child).right) with
    | none => none
    | some smallest =>
      if smallest = child then some h
      else walkDown fuel (h.heap_node_swap child smallest) child

def heap_insert (h : Heap Addr) (newnode : Addr) : Option (Heap Addr) :=
  let h := h.write newnode fun _ => ⟨none, none, none⟩
  match h.walkTo ((1 + h.nelts) % 2 ^ 32) with
  | none => none
  | some (parent, child) =>
    let h := h.write newnode fun n => { n with parent := h.get parent }
    let h := h.set child (some newnode)
    let h := { h with nelts := (h.nelts + 1) % 2 ^ 32 }
    walkUp less_than (h.nelts + 1) h newnode

def heap_remove (h : Heap Addr) (node : Addr) : Option (Heap Addr) :=
  if h.nelts = 0 then some h
  else
    match h.walkTo h.nelts with
    | none => none
    | some (_, max) =>
      let h := { h with nelts := h.nelts - 1 }
      let child := h.get max
      let h := h.set max none
      if child = some node then some (if child = h.min then { h with min := none } else h)
      else
        match child with
        | none => none
        | some child =>
          let h := h.replace node child
          (walkDown less_than (h.nelts + 1) h child).bind fun h =>
            walkUp less_than (h.nelts + 1) h child

end

/-! ## 2. Positions -/

/-- The node at a position, null where there is none. -/
def place (a : Nat → Addr) (n k : Nat) : Option Addr := if 1 ≤ k ∧ k ≤ n then some (a k) else none

/-- What is in the node at a position of a complete binary tree. -/
def nodeAt (a : Nat → Addr) (n k : Nat) : HeapNode Addr :=
  ⟨place a n (2 * k), place a n (2 * k + 1), place a n (k / 2)⟩

/-- The heap is the complete binary tree of the nodes `a 1, …, a n`. -/
structure Layout (h : Heap Addr) (a : Nat → Addr) (n : Nat) : Prop where
  nelts : h.nelts = n
  small : n < 2 ^ 32
  min : h.min = place a n 1
  node : ∀ k, 1 ≤ k ∧ k ≤ n → h.node (a k) = nodeAt a n k
  distinct : Distinct a n

section
variable {a : Nat → Addr} {i j k n : Nat}

theorem place_of_le (hk : 1 ≤ k ∧ k ≤ n) : place a n k = some (a k) := if_pos hk

theorem place_zero : place a n 0 = none := if_neg (by omega)

theorem place_of_lt (hk : n < k) : place a n k = none := if_neg (by omega)

theorem place_eq_some (ha : Distinct a n) (hk : 1 ≤ k ∧ k ≤ n) {m : Nat} :
    place a n m = some (a k) ↔ m = k := by
  rw [place]
  split
  · rename_i hm
    rw [Option.some.injEq, ha.eq_iff hm hk]
  · rename_i hm
    exact iff_of_false nofun (by rintro rfl; exact hm hk)

theorem place_exchange (hi : 1 ≤ i ∧ i ≤ n) (hj : 1 ≤ j ∧ j ≤ n) (m : Nat) :
    place (exchange a i j) n m = place a n (Equiv.swap i j m) := by
  have hiff : (1 ≤ m ∧ m ≤ n) ↔ (1 ≤ Equiv.swap i j m ∧ Equiv.swap i j m ≤ n) := by
    rw [Equiv.swap_apply_def]
    split
    · rename_i hm
      exact iff_of_true (hm ▸ hi) hj
    split
    · rename_i hm
      exact iff_of_true (hm ▸ hj) hi
    · exact Iff.rfl
  simp only [place, hiff, exchange]

theorem place_append (x : Addr) (k : Nat) :
    place (Function.update a (n + 1) x) (n + 1) k = if k = n + 1 then some x else place a n k := by
  by_cases hk : k = n + 1
  · rw [if_pos hk, hk, place_of_le (by omega), Function.update_self]
  · rw [if_neg hk, place, place, Function.update_of_ne hk]
    by_cases hkn : 1 ≤ k ∧ k ≤ n
    · rw [if_pos hkn, if_pos (by omega)]
    · rw [if_neg hkn, if_neg (by omega)]

theorem place_update (hi : 1 ≤ i ∧ i ≤ n) (x : Addr) (k : Nat) :
    place (Function.update a i x) n k = if k = i then some x else place a n k := by
  by_cases hk : k = i
  · rw [if_pos hk, hk, place_of_le hi, Function.update_self]
  · rw [if_neg hk, place, place, Function.update_of_ne hk]

theorem Layout.other {h h' : Heap Addr} (hl : Layout h a n) (hnelts : h'.nelts = h.nelts)
    (hmin : h'.min = h.min) (hnode : ∀ k, 1 ≤ k ∧ k ≤ n → h'.node (a k) = h.node (a k)) :
    Layout h' a n :=
  ⟨hnelts.trans hl.nelts, hl.small, hmin.trans hl.min,
    fun k hk => (hnode k hk).trans (hl.node k hk), hl.distinct⟩

/-- The pointer to the node at a position. -/
def slotOf (a : Nat → Addr) (m : Nat) : Slot Addr :=
  if m = 1 then .min else if m % 2 = 1 then .right (a (m / 2)) else .left (a (m / 2))

/-- `parent`, when the loop has come to a position. -/
def parentSlot (a : Nat → Addr) (m : Nat) : Slot Addr := if m = 1 then .min else slotOf a (m / 2)

theorem slotOf_of_le {m : Nat} (hm : 2 ≤ m) :
    slotOf a m = if m % 2 = 1 then .right (a (m / 2)) else .left (a (m / 2)) :=
  if_neg (by omega)

theorem Layout.get_slotOf {h : Heap Addr} (hl : Layout h a n) {m : Nat} (hm : 1 ≤ m)
    (hn : m / 2 ≤ n) : h.get (slotOf a m) = place a n m := by
  rw [slotOf]
  by_cases h1 : m = 1
  · rw [if_pos h1, h1]
    exact hl.min
  rw [if_neg h1]
  split
  · rw [get, hl.node _ (by omega), nodeAt, show 2 * (m / 2) + 1 = m by omega]
  · rw [get, hl.node _ (by omega), nodeAt, show 2 * (m / 2) = m by omega]

theorem Layout.get_parentSlot {h : Heap Addr} (hl : Layout h a n) :
    h.get (parentSlot a (n + 1)) = place a n ((n + 1) / 2) := by
  rw [parentSlot]
  by_cases h1 : n + 1 = 1
  · rw [if_pos h1, get, hl.min, place, place, if_neg (by omega), if_neg (by omega)]
  · rw [if_neg h1, hl.get_slotOf (by omega) (by omega)]

theorem get_nelts (h : Heap Addr) (m : Nat) (slot : Slot Addr) :
    Heap.get { h with nelts := m } slot = h.get slot := by
  cases slot <;> rfl

theorem Layout.walk_pathLoop {h : Heap Addr} (hl : Layout h a n) (fuel : Nat) {m : Nat}
    (hm : 1 ≤ m) (hn : m / 2 ≤ n) (hfuel : m < 2 ^ (fuel + 1)) (k path : Nat) :
    h.walk (pathLoop fuel m k path).1 (pathLoop fuel m k path).2 .min .min =
      h.walk k path (parentSlot a m) (slotOf a m) := by
  induction fuel generalizing m k path with
  | zero =>
    obtain rfl : m = 1 := by omega
    rfl
  | succ fuel ih =>
    rw [pathLoop]
    by_cases h2 : 2 ≤ m
    · rw [if_pos h2, ih (by omega) (by omega) (by omega), walk, hl.get_slotOf (by omega) (by omega),
        place_of_le (by omega)]
      simp only
      rw [show (2 * path + m % 2) / 2 = path by omega, show (2 * path + m % 2) % 2 = m % 2 by omega,
        parentSlot, if_neg (show ¬ m = 1 by omega), slotOf_of_le h2]
    · obtain rfl : m = 1 := by omega
      rfl

theorem Layout.walkTo {h : Heap Addr} (hl : Layout h a n) {m : Nat} (hm : 1 ≤ m) (hn : m / 2 ≤ n)
    (hsmall : m < 2 ^ 32) : h.walkTo m = some (parentSlot a m, slotOf a m) :=
  hl.walk_pathLoop 32 hm hn (by omega) 0 0

/-! ## 3. `heap_node_swap` -/

/-- What `heap_node_swap` makes of the node at the old position `m`. -/
def swappedAt (a : Nat → Addr) (n i j m : Nat) : HeapNode Addr :=
  if i = m then ⟨place a n (2 * j), place a n (2 * j + 1), place a n j⟩
  else if j = m then
    if j = 2 * i then ⟨place a n i, place a n (2 * i + 1), place a n (i / 2)⟩
    else ⟨place a n (2 * i), place a n i, place a n (i / 2)⟩
  else
    ⟨place a n (if i = 2 * m then j else 2 * m), place a n (if i = 2 * m + 1 then j else 2 * m + 1),
      place a n (if m / 2 = i then j else if m / 2 = j then i else m / 2)⟩

/-- The same before the parent of the two has its new child; `sib` is the other child of `i`. -/
def turnedAt (a : Nat → Addr) (n i j sib m : Nat) : HeapNode Addr :=
  if m / 2 = j then { nodeAt a n m with parent := place a n i }
  else if sib = m then { nodeAt a n m with parent := place a n j }
  else if i = m then { nodeAt a n j with parent := place a n j }
  else if j = m then
    if j = 2 * i then { nodeAt a n i with left := place a n i }
    else { nodeAt a n i with right := place a n i }
  else nodeAt a n m

theorem relink_turnedAt {sib : Nat} (hi : 1 ≤ i) (hj : j / 2 = i) (hsib : sib / 2 = i ∧ sib ≠ j)
    (m : Nat) :
    (if i = 2 * m then { nodeAt a n m with left := place a n j }
      else if i = 2 * m + 1 then { nodeAt a n m with right := place a n j }
      else turnedAt a n i j sib m) = swappedAt a n i j m := by
  by_cases hmi : i = m
  · rw [if_neg (by omega), if_neg (by omega), turnedAt, if_neg (by omega), if_neg (by omega),
      if_pos hmi, swappedAt, if_pos hmi, nodeAt]
  by_cases hmj : j = m
  · rw [if_neg (by omega), if_neg (by omega), turnedAt, if_neg (by omega), if_neg (by omega),
      if_neg hmi, if_pos hmj, swappedAt, if_neg hmi, if_pos hmj, nodeAt]
  rw [swappedAt, if_neg hmi, if_neg hmj]
  by_cases hleft : i = 2 * m
  · rw [if_pos hleft, if_pos hleft, if_neg (by omega), if_neg (by omega), if_neg (by omega), nodeAt]
  by_cases hright : i = 2 * m + 1
  · rw [if_neg hleft, if_pos hright, if_neg hleft, if_pos hright, if_neg (by omega),
      if_neg (by omega), nodeAt]
  rw [if_neg hleft, if_neg hright, if_neg hleft, if_neg hright, turnedAt, if_neg hmi, if_neg hmj]
  by_cases hbelow : m / 2 = j
  · rw [if_pos hbelow, if_neg (by omega), if_pos hbelow, nodeAt]
  by_cases hsibling : m / 2 = i
  · rw [if_neg hbelow, if_pos (by omega), if_pos hsibling, nodeAt]
  · rw [if_neg hbelow, if_neg (by omega), if_neg hsibling, if_neg hbelow, nodeAt]

theorem nodeAt_exchange (hi : 1 ≤ i) (hj : j / 2 = i) (hn : j ≤ n) (k : Nat) :
    nodeAt (exchange a i j) n k = swappedAt a n i j (Equiv.swap i j k) := by
  have hplace := place_exchange (a := a) (n := n) (i := i) (j := j) (by omega) (by omega)
  rw [nodeAt, hplace, hplace, hplace, swappedAt]
  by_cases hki : k = i
  · subst hki
    rw [Equiv.swap_apply_left, if_neg (by omega), if_pos rfl]
    by_cases hleft : j = 2 * k
    · rw [if_pos hleft, ← hleft, Equiv.swap_apply_right,
        Equiv.swap_apply_of_ne_of_ne (by omega) (by omega),
        Equiv.swap_apply_of_ne_of_ne (by omega) (by omega)]
    · obtain rfl : j = 2 * k + 1 := by omega
      rw [if_neg hleft, Equiv.swap_apply_right,
        Equiv.swap_apply_of_ne_of_ne (by omega) (by omega),
        Equiv.swap_apply_of_ne_of_ne (by omega) (by omega)]
  by_cases hkj : k = j
  · subst hkj
    rw [Equiv.swap_apply_right, if_pos rfl, hj, Equiv.swap_apply_left,
      Equiv.swap_apply_of_ne_of_ne (by omega) (by omega),
      Equiv.swap_apply_of_ne_of_ne (by omega) (by omega)]
  rw [Equiv.swap_apply_of_ne_of_ne hki hkj, if_neg (Ne.symm hki), if_neg (Ne.symm hkj)]
  -- no child of a position other than `i` is `j`
  have hchild : ∀ c, c / 2 = k → Equiv.swap i j c = if i = c then j else c := by
    intro c hc
    rw [Equiv.swap_apply_def, if_neg (show ¬ c = j by omega)]
    simp only [eq_comm]
  rw [hchild _ (by omega), hchild _ (by omega), Equiv.swap_apply_def]

variable [DecidableEq Addr]

theorem write_self (h : Heap Addr) (x : Addr) (f : HeapNode Addr → HeapNode Addr) :
    (h.write x f).node x = f (h.node x) :=
  if_pos rfl

theorem write_place (ha : Distinct a n) (h : Heap Addr) (p : Nat)
    (f : HeapNode Addr → HeapNode Addr) {m : Nat} (hm : 1 ≤ m ∧ m ≤ n) :
    ((h.write (place a n p) f).node (a m)) =
      if p = m then f (h.node (a m)) else h.node (a m) := by
  simp only [write, place_eq_some ha hm]

/-- Both children of the position `p` get a parent. -/
theorem write_children (ha : Distinct a n) (h : Heap Addr) (p : Nat) (o : Option Addr) {m : Nat}
    (hm : 1 ≤ m ∧ m ≤ n) :
    ((h.write (place a n (2 * p)) fun x => { x with parent := o }).write (place a n (2 * p + 1))
        fun x => { x with parent := o }).node (a m) =
      if m / 2 = p then { h.node (a m) with parent := o } else h.node (a m) := by
  rw [write_place ha _ _ _ hm, write_place ha _ _ _ hm]
  by_cases hbelow : m / 2 = p
  · rw [if_pos hbelow]
    by_cases heven : 2 * p = m
    · rw [if_neg (by omega), if_pos heven]
    · rw [if_pos (by omega), if_neg heven]
  · rw [if_neg hbelow, if_neg (by omega), if_neg (by omega)]

/-- The new child of the parent of position `i`. -/
theorem relink_node (ha : Distinct a n) (hi : 1 ≤ i ∧ i ≤ n) {h : Heap Addr}
    (hg : 2 ≤ i → h.node (a (i / 2)) = nodeAt a n (i / 2)) (new : Addr) {m : Nat}
    (hm : 1 ≤ m ∧ m ≤ n) :
    (h.relink (place a n (i / 2)) (a i) new).node (a m) =
      if i = 2 * m then { nodeAt a n m with left := some new }
      else if i = 2 * m + 1 then { nodeAt a n m with right := some new }
      else h.node (a m) := by
  by_cases h2 : 2 ≤ i
  · have hg' : 1 ≤ i / 2 ∧ i / 2 ≤ n := by omega
    have hleft : (h.node (a (i / 2))).left = some (a i) ↔ 2 * (i / 2) = i := by
      rw [hg h2, nodeAt, place_eq_some ha hi]
    rw [place_of_le hg', relink]
    simp only [hleft, ← place_of_le hg']
    by_cases hparent : i / 2 = m
    · subst hparent
      split_ifs <;> first | omega | simp only [write_place ha _ _ _ hm, if_true, hg h2]
    · split_ifs <;> first | omega | rw [write_place ha _ _ _ hm, if_neg hparent]
  · rw [show i / 2 = 0 by omega, place_zero, relink, if_neg (by omega), if_neg (by omega)]

theorem relink_min (hi : 1 ≤ i ∧ i ≤ n) (h : Heap Addr) (old new : Addr) :
    (h.relink (place a n (i / 2)) old new).min = if i = 1 then some new else h.min := by
  by_cases h2 : 2 ≤ i
  · rw [place_of_le (show 1 ≤ i / 2 ∧ i / 2 ≤ n by omega), if_neg (show ¬ i = 1 by omega), relink]
    split <;> rfl
  · rw [show i / 2 = 0 by omega, place_zero, relink, if_pos (by omega)]

theorem Layout.swap_node {h : Heap Addr} (hl : Layout h a n) (hi : 1 ≤ i) (hj : j / 2 = i)
    (hn : j ≤ n) :
    (h.heap_node_swap (a i) (a j)).min = (if i = 1 then some (a j) else h.min) ∧
      ∀ m, 1 ≤ m ∧ m ≤ n →
        (h.heap_node_swap (a i) (a j)).node (a m) = swappedAt a n i j m := by
  have ha := hl.distinct
  have hi' : 1 ≤ i ∧ i ≤ n := by omega
  have hj' : 1 ≤ j ∧ j ≤ n := by omega
  have hij : i ≠ j := by omega
  have hpi := place_of_le (a := a) hi'
  have hpj := place_of_le (a := a) hj'
  unfold heap_node_swap
  rw [← hpi, ← hpj]
  extract_lets t h1 h2 h3 isLeft sibling h4 h5 h6 h7
  have h3_node : ∀ m, 1 ≤ m ∧ m ≤ n → h3.node (a m) =
      if i = m then { nodeAt a n j with parent := place a n j }
      else if j = m then nodeAt a n i else nodeAt a n m := by
    intro m hm
    rw [write_place ha _ _ _ hm, write_place ha _ _ _ hm, write_place ha _ _ _ hm, hl.node m hm,
      hl.node j hj', show t = nodeAt a n i from hl.node i hi']
    by_cases hmi : i = m
    · rw [if_pos hmi, if_neg (by omega), if_pos hmi, if_pos hmi]
    · rw [if_neg hmi, if_neg hmi, if_neg hmi]
  have h3_child : h3.node (a j) = nodeAt a n i := by
    rw [h3_node j hj', if_neg hij, if_pos rfl]
  have hleft : isLeft ↔ j = 2 * i := by
    show (h3.node (a j)).left = _ ↔ _
    rw [h3_child, hpj, nodeAt, place_eq_some ha hj', eq_comm]
  obtain ⟨sib, hsib, hsibling⟩ : ∃ sib, (sib / 2 = i ∧ sib ≠ j) ∧ sibling = place a n sib := by
    simp only [sibling, hleft, h3_child]
    split
    · exact ⟨2 * i + 1, by omega, rfl⟩
    · exact ⟨2 * i, by omega, rfl⟩
  have h5_node : ∀ m, 1 ≤ m ∧ m ≤ n → m / 2 ≠ j → h5.node (a m) = turnedAt a n i j sib m := by
    intro m hm hbelow
    rw [turnedAt, if_neg hbelow]
    show ((h4.write sibling _).node (a m)) = _
    rw [hsibling, write_place ha _ _ _ hm, write_place ha _ _ _ hm]
    simp only [hleft]
    by_cases hmj : j = m
    · obtain rfl := hmj
      rw [if_neg hsib.2, if_neg hsib.2, if_pos rfl, if_neg hij, if_pos rfl, h3_child]
    rw [if_neg hmj, h3_node m hm, if_neg hmj]
    by_cases hms : sib = m
    · rw [if_pos hms, if_pos hms, if_neg (by omega)]
    · rw [if_neg hms, if_neg hms, if_neg hmj]
  have h5_below : ∀ m, 1 ≤ m ∧ m ≤ n → m / 2 = j →
      { h5.node (a m) with parent := place a n i } = turnedAt a n i j sib m := by
    intro m hm hbelow
    rw [turnedAt, if_pos hbelow]
    show ({ (h4.write sibling _).node (a m) with parent := place a n i } : HeapNode Addr) = _
    rw [hsibling, write_place ha _ _ _ hm, if_neg (by omega), write_place ha _ _ _ hm,
      if_neg (by omega), h3_node m hm, if_neg (by omega), if_neg (by omega)]
  have h5_parent : h5.node (a i) = { nodeAt a n j with parent := place a n j } := by
    rw [h5_node i hi' (by omega), turnedAt, if_neg (by omega), if_neg (by omega), if_pos rfl]
  have h6_eq : h6 = h5.write (place a n (2 * j)) fun x => { x with parent := place a n i } := by
    show h5.write (h5.node (a i)).left _ = _
    rw [h5_parent, nodeAt]
  have h6_right : (h6.node (a i)).right = place a n (2 * j + 1) := by
    rw [h6_eq, write_place ha _ _ _ hi', if_neg (by omega), h5_parent, nodeAt]
  have h7_eq : h7 = h6.write (place a n (2 * j + 1)) fun x => { x with parent := place a n i } := by
    show h6.write (h6.node (a i)).right _ = _
    rw [h6_right]
  have h7_node : ∀ m, 1 ≤ m ∧ m ≤ n → h7.node (a m) = turnedAt a n i j sib m := by
    intro m hm
    rw [h7_eq, h6_eq, write_children ha _ _ _ hm]
    by_cases hbelow : m / 2 = j
    · rw [if_pos hbelow, h5_below m hm hbelow]
    · rw [if_neg hbelow, h5_node m hm hbelow]
  have h7_parent : (h7.node (a j)).parent = place a n (i / 2) := by
    rw [h7_node j hj', turnedAt, if_neg (by omega), if_neg hsib.2, if_neg hij, if_pos rfl]
    split <;> rfl
  have hg : 2 ≤ i → h7.node (a (i / 2)) = nodeAt a n (i / 2) := by
    intro h2
    rw [h7_node _ (by omega), turnedAt, if_neg (by omega), if_neg (by omega), if_neg (by omega),
      if_neg (by omega)]
  rw [h7_parent]
  refine ⟨by rw [relink_min hi', hpj]; rfl, fun m hm => ?_⟩
  rw [relink_node ha hi' hg _ hm, h7_node m hm, ← hpj]
  exact relink_turnedAt hi hj hsib m

theorem relink_nelts (h : Heap Addr) (parent : Option Addr) (old new : Addr) :
    (h.relink parent old new).nelts = h.nelts := by
  unfold relink
  split
  · rfl
  · split <;> rfl

theorem heap_node_swap_nelts (h : Heap Addr) (parent child : Addr) :
    (h.heap_node_swap parent child).nelts = h.nelts := by
  rw [heap_node_swap, relink_nelts]
  rfl

theorem Layout.swap {h : Heap Addr} (hl : Layout h a n) (hi : 1 ≤ i) (hj : j / 2 = i)
    (hn : j ≤ n) : Layout (h.heap_node_swap (a i) (a j)) (exchange a i j) n := by
  obtain ⟨hmin, hnode⟩ := hl.swap_node hi hj hn
  have hi' : 1 ≤ i ∧ i ≤ n := by omega
  have hj' : 1 ≤ j ∧ j ≤ n := by omega
  refine ⟨by rw [heap_node_swap_nelts, hl.nelts], hl.small, ?_, ?_, hl.distinct.exchange hi' hj'⟩
  · rw [hmin, hl.min, place_of_le (by omega), place_of_le (by omega)]
    by_cases h1 : i = 1
    · subst h1
      rw [if_pos rfl, exchange_left]
    · rw [if_neg h1, exchange_of_ne (by omega) (by omega)]
  · intro k hk
    rw [nodeAt_exchange hi hj hn]
    exact hnode _ (swap_le hi' hj' hk)

/-! ## 4. A node comes, goes or takes the place of another -/

theorem set_slotOf_node (ha : Distinct a n) (h : Heap Addr) {m : Nat} (hm : 1 ≤ m)
    (hn : m / 2 ≤ n) (o : Option Addr) (hk : 1 ≤ k ∧ k ≤ n) :
    (h.set (slotOf a m) o).node (a k) =
      if 2 * k = m then { h.node (a k) with left := o }
      else if 2 * k + 1 = m then { h.node (a k) with right := o }
      else h.node (a k) := by
  by_cases h1 : m = 1
  · rw [slotOf, if_pos h1, if_neg (by omega), if_neg (by omega)]
    rfl
  have hplace : some (a (m / 2)) = place a n (m / 2) := (place_of_le (by omega)).symm
  rw [slotOf_of_le (by omega)]
  split
  · rw [set, hplace, write_place ha _ _ _ hk, if_neg (show ¬ 2 * k = m by omega)]
    by_cases hkm : m / 2 = k
    · rw [if_pos hkm, if_pos (by omega)]
    · rw [if_neg hkm, if_neg (by omega)]
  · rw [set, hplace, write_place ha _ _ _ hk]
    by_cases hkm : m / 2 = k
    · rw [if_pos hkm, if_pos (by omega)]
    · rw [if_neg hkm, if_neg (by omega), if_neg (by omega)]

theorem mem_of_place {x : Addr} {p : Nat} (h : place a n p = some x) : x ∈ elements a n := by
  rw [place] at h
  split at h
  · rename_i hp
    exact Option.some.inj h ▸ mem_elements_of_le hp
  · cases h

/-- A node that is not in the heap is left alone. -/
theorem write_place_other {x : Addr} (hx : x ∉ elements a n) (h : Heap Addr) (p : Nat)
    (f : HeapNode Addr → HeapNode Addr) : (h.write (place a n p) f).node x = h.node x :=
  if_neg fun hplace => hx (mem_of_place hplace)

theorem set_slotOf_other {x : Addr} (hx : x ∉ elements a n) (h : Heap Addr) {m : Nat} (hm : 1 ≤ m)
    (hn : m / 2 ≤ n) (o : Option Addr) : (h.set (slotOf a m) o).node x = h.node x := by
  by_cases h1 : m = 1
  · rw [slotOf, if_pos h1]
    rfl
  have hplace : some (a (m / 2)) = place a n (m / 2) := (place_of_le (by omega)).symm
  rw [slotOf_of_le (by omega)]
  split <;> rw [set, hplace, write_place_other hx]

theorem set_slotOf_min (h : Heap Addr) {m : Nat} (o : Option Addr) :
    (h.set (slotOf a m) o).min = if m = 1 then o else h.min := by
  rw [slotOf]
  split
  · rfl
  · split <;> rfl

theorem set_nelts (h : Heap Addr) (slot : Slot Addr) (o : Option Addr) :
    (h.set slot o).nelts = h.nelts := by
  cases slot <;> rfl

/-- The new node at the end of the bottom row. -/
theorem Layout.append {h : Heap Addr} (hl : Layout h a n) {x : Addr} (hx : x ∉ elements a n)
    (hsmall : n + 1 < 2 ^ 32) (hnode : h.node x = ⟨none, none, place a n ((n + 1) / 2)⟩) :
    Layout { h.set (slotOf a (n + 1)) (some x) with nelts := (n + 1) % 2 ^ 32 }
      (Function.update a (n + 1) x) (n + 1) := by
  refine ⟨Nat.mod_eq_of_lt hsmall, hsmall, ?_, ?_, hl.distinct.append hx⟩
  · show (h.set (slotOf a (n + 1)) (some x)).min = _
    rw [set_slotOf_min, place_append, hl.min]
    by_cases h1 : n + 1 = 1
    · rw [if_pos h1, if_pos h1.symm]
    · rw [if_neg h1, if_neg (Ne.symm h1)]
  · intro k hk
    show (h.set (slotOf a (n + 1)) (some x)).node _ = _
    rw [nodeAt, place_append, place_append, place_append, if_neg (show ¬ k / 2 = n + 1 by omega)]
    by_cases hlast : k = n + 1
    · rw [hlast, Function.update_self, set_slotOf_other hx h (by omega) (by omega), hnode,
        if_neg (by omega), if_neg (by omega), place_of_lt (show n < 2 * (n + 1) by omega),
        place_of_lt (show n < 2 * (n + 1) + 1 by omega)]
    · rw [Function.update_of_ne hlast,
        set_slotOf_node hl.distinct h (by omega) (by omega) _ (by omega), hl.node k (by omega)]
      by_cases hleft : 2 * k = n + 1
      · rw [if_pos hleft, if_pos hleft, if_neg (by omega), nodeAt]
      · rw [if_neg hleft, if_neg hleft]
        split <;> rfl

/-- The last node has been unlinked. -/
theorem Layout.unlink {h : Heap Addr} (hl : Layout h a (n + 1)) :
    Layout (Heap.set { h with nelts := h.nelts - 1 } (slotOf a (n + 1)) none) a n := by
  have hplace : ∀ k, k ≠ n + 1 → place a (n + 1) k = place a n k := by
    intro k hk
    rw [place, place]
    by_cases hkn : 1 ≤ k ∧ k ≤ n
    · rw [if_pos hkn, if_pos (by omega)]
    · rw [if_neg hkn, if_neg (by omega)]
  have hsmall := hl.small
  refine ⟨?_, by omega, ?_, ?_, hl.distinct.last.1⟩
  · rw [set_nelts, hl.nelts, Nat.add_sub_cancel]
  · rw [set_slotOf_min, hl.min]
    by_cases h1 : n + 1 = 1
    · rw [if_pos h1, place_of_lt (by omega)]
    · rw [if_neg h1, hplace 1 (Ne.symm h1)]
  · intro k hk
    rw [set_slotOf_node hl.distinct _ (by omega) (by omega) none (by omega),
      hl.node k (by omega), nodeAt, nodeAt, hplace (k / 2) (by omega)]
    by_cases hleft : 2 * k = n + 1
    · rw [if_pos hleft, hplace (2 * k + 1) (by omega), place_of_lt (show n < 2 * k by omega)]
    rw [if_neg hleft, hplace (2 * k) hleft]
    by_cases hright : 2 * k + 1 = n + 1
    · rw [if_pos hright, place_of_lt (show n < 2 * k + 1 by omega)]
    · rw [if_neg hright, hplace (2 * k + 1) hright]

theorem relink_other {x : Addr} (hx : x ∉ elements a n) (h : Heap Addr) (p : Nat)
    (old new : Addr) : (h.relink (place a n p) old new).node x = h.node x := by
  rw [place]
  split
  · rename_i hp
    have hplace := place_of_le (a := a) hp
    rw [relink]
    split <;> rw [← hplace, write_place_other hx]
  · rfl

/-- Another node takes the place of one. -/
theorem Layout.replace {h : Heap Addr} (hl : Layout h a n) (hi : 1 ≤ i ∧ i ≤ n) {x : Addr}
    (hx : x ∉ elements a n) (hdistinct : Distinct (Function.update a i x) n) :
    Layout (h.replace (a i) x) (Function.update a i x) n := by
  have ha := hl.distinct
  have hne : ∀ k, 1 ≤ k ∧ k ≤ n → some x ≠ some (a k) := by
    intro k hk heq
    exact hx (Option.some.inj heq ▸ mem_elements_of_le hk)
  unfold Heap.replace
  extract_lets h1 h2 h3
  have h1_node : ∀ k, 1 ≤ k ∧ k ≤ n → h1.node (a k) = nodeAt a n k := fun k hk =>
    (if_neg (hne k hk)).trans (hl.node k hk)
  have h1_new : h1.node x = nodeAt a n i := (if_pos rfl).trans (hl.node i hi)
  have h2_eq : h2 = h1.write (place a n (2 * i)) fun n => { n with parent := some x } := by
    show h1.write (h1.node x).left _ = _
    rw [h1_new, nodeAt]
  have h2_new : h2.node x = nodeAt a n i := by
    rw [h2_eq, write_place_other hx, h1_new]
  have h3_eq : h3 = h2.write (place a n (2 * i + 1)) fun n => { n with parent := some x } := by
    show h2.write (h2.node x).right _ = _
    rw [h2_new, nodeAt]
  have h3_new : h3.node x = nodeAt a n i := by
    rw [h3_eq, write_place_other hx, h2_new]
  have h3_node : ∀ k, 1 ≤ k ∧ k ≤ n → h3.node (a k) =
      if k / 2 = i then { nodeAt a n k with parent := some x } else nodeAt a n k := by
    intro k hk
    rw [h3_eq, h2_eq, write_children ha _ _ _ hk, h1_node k hk]
  have h3_parent : (h3.node (a i)).parent = place a n (i / 2) := by
    rw [h3_node i hi, if_neg (by omega), nodeAt]
  have hg : 2 ≤ i → h3.node (a (i / 2)) = nodeAt a n (i / 2) := by
    intro h2
    rw [h3_node _ (by omega), if_neg (by omega)]
  rw [h3_parent]
  refine ⟨?_, hl.small, ?_, ?_, hdistinct⟩
  · rw [relink_nelts]
    exact hl.nelts
  · rw [relink_min hi, place_update hi]
    by_cases h1 : i = 1
    · rw [if_pos h1, if_pos h1.symm]
    · rw [if_neg h1, if_neg (Ne.symm h1)]
      exact hl.min
  · intro k hk
    rw [nodeAt, place_update hi, place_update hi, place_update hi]
    by_cases hki : k = i
    · subst hki
      rw [Function.update_self, if_neg (by omega), if_neg (by omega), if_neg (by omega),
        relink_other hx, h3_new, nodeAt]
    · rw [Function.update_of_ne hki, relink_node ha hi hg x hk, h3_node k hk]
      simp only [eq_comm (b := i)]
      by_cases hleft : i = 2 * k
      · rw [if_pos hleft, if_pos hleft, if_neg (by omega), if_neg (by omega), nodeAt]
      by_cases hright : i = 2 * k + 1
      · rw [if_neg hleft, if_pos hright, if_neg hleft, if_pos hright, if_neg (by omega), nodeAt]
      rw [if_neg hleft, if_neg hright, if_neg hleft, if_neg hright]
      split <;> rfl

end

end Heap

end LuaServer
