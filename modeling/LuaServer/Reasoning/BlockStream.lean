import Mathlib.Data.List.Range
import Mathlib.Data.Nat.Init

/-!
# BlockStream — a stream of elements that is processed in blocks of one size

Elements come one at a time.  `feed` keeps those of the block that is not yet full, and processes a
block with `f` when it is.
-/

namespace Reasoning

variable {σ α : Type*} {n : Nat} {f : σ → List α → σ} {s : σ} {kept xs ys b : List α}

/-! ## 1. Blocks -/

/-- The whole blocks of `n` elements. -/
def blocks (n : Nat) (xs : List α) : List (List α) :=
  (List.range (xs.length / n)).map fun i => (xs.drop (n * i)).take n

/-- What follows the last whole block. -/
def afterBlocks (n : Nat) (xs : List α) : List α := xs.drop (n * (xs.length / n))

theorem blocks_short (h : xs.length < n) : blocks n xs = [] := by
  rw [blocks, Nat.div_eq_of_lt h]
  rfl

theorem afterBlocks_short (h : xs.length < n) : afterBlocks n xs = xs := by
  rw [afterBlocks, Nat.div_eq_of_lt h, Nat.mul_zero, List.drop_zero]

theorem afterBlocks_length (n : Nat) (xs : List α) : (afterBlocks n xs).length = xs.length % n := by
  rw [afterBlocks, List.length_drop, Nat.mod_eq_sub]

theorem length_append_div (hn : 0 < n) (hb : b.length = n) :
    (b ++ xs).length / n = xs.length / n + 1 := by
  rw [List.length_append, hb, Nat.add_comm, Nat.add_div_right _ hn]

theorem drop_block (hb : b.length = n) (i : Nat) :
    (b ++ xs).drop (n * (i + 1)) = xs.drop (n * i) := by
  rw [Nat.mul_add, Nat.mul_one, Nat.add_comm, ← hb, List.drop_length_add_append]

theorem blocks_append (hn : 0 < n) (hb : b.length = n) : blocks n (b ++ xs) = b :: blocks n xs := by
  rw [blocks, length_append_div hn hb, List.range_succ_eq_map, List.map_cons, List.map_map]
  congr 1
  · rw [Nat.mul_zero, List.drop_zero, ← hb, List.take_left]
  · apply List.map_congr_left
    intro i _
    rw [Function.comp_apply, drop_block hb]

theorem afterBlocks_append (hn : 0 < n) (hb : b.length = n) :
    afterBlocks n (b ++ xs) = afterBlocks n xs := by
  rw [afterBlocks, length_append_div hn hb, drop_block hb, afterBlocks]

/-- A list is short, or a block and another list. -/
theorem block_induction {P : List α → Prop} (hn : 0 < n) (short : ∀ xs, xs.length < n → P xs)
    (block : ∀ b xs, b.length = n → P xs → P (b ++ xs)) (xs : List α) : P xs := by
  generalize hlen : xs.length = len
  induction len using Nat.strong_induction_on generalizing xs with
  | h len ih =>
    by_cases hshort : xs.length < n
    · exact short xs hshort
    · have hle := Nat.le_of_not_lt hshort
      have hdrop : (xs.drop n).length < len := by
        rw [List.length_drop]
        omega
      rw [← List.take_append_drop n xs]
      exact block _ _ (List.length_take_of_le hle) (ih _ hdrop _ rfl)

/-! ## 2. Elements one at a time -/

/-- One element more: a block that is full is processed. -/
def feed (n : Nat) (f : σ → List α → σ) (s : σ × List α) (x : α) : σ × List α :=
  if s.2.length + 1 = n then (f s.1 (s.2 ++ [x]), []) else (s.1, s.2 ++ [x])

def feedAll (n : Nat) (f : σ → List α → σ) (s : σ × List α) (xs : List α) : σ × List α :=
  xs.foldl (feed n f) s

@[simp] theorem feedAll_nil (s : σ × List α) : feedAll n f s [] = s := rfl

theorem feedAll_cons (s : σ × List α) (x : α) (xs : List α) :
    feedAll n f s (x :: xs) = feedAll n f (feed n f s x) xs := rfl

theorem feedAll_append (s : σ × List α) (xs ys : List α) :
    feedAll n f s (xs ++ ys) = feedAll n f (feedAll n f s xs) ys := List.foldl_append

theorem feed_full (h : kept.length + 1 = n) (x : α) :
    feed n f (s, kept) x = (f s (kept ++ [x]), []) := if_pos h

theorem feed_room (h : kept.length + 1 ≠ n) (x : α) : feed n f (s, kept) x = (s, kept ++ [x]) :=
  if_neg h

theorem feed_length_lt {s : σ × List α} (h : s.2.length < n) (x : α) :
    (feed n f s x).2.length < n := by
  rw [feed]
  split
  · rename_i heq
    exact heq ▸ Nat.succ_pos _
  · rename_i hne
    dsimp only
    rw [List.length_append, List.length_singleton]
    omega

/-- The block does not get full. -/
theorem feedAll_short (h : kept.length + xs.length < n) :
    feedAll n f (s, kept) xs = (s, kept ++ xs) := by
  induction xs generalizing kept with
  | nil => rw [feedAll_nil, List.append_nil]
  | cons x xs ih =>
    rw [List.length_cons] at h
    rw [feedAll_cons, feed_room (by omega), ih, List.append_assoc]
    · rfl
    · rw [List.length_append, List.length_singleton]
      omega

/-- The block gets full with the last element. -/
theorem feedAll_full (hpos : b ≠ []) (h : kept.length + b.length = n) :
    feedAll n f (s, kept) b = (f s (kept ++ b), []) := by
  induction b generalizing kept with
  | nil => exact absurd rfl hpos
  | cons x b ih =>
    rw [List.length_cons] at h
    rw [feedAll_cons]
    by_cases hb : b = []
    · rw [hb] at h ⊢
      rw [feed_full h, feedAll_nil]
    · have hlen := List.length_pos_iff.mpr hb
      rw [feed_room (by omega), ih hb, List.append_assoc]
      · rfl
      · rw [List.length_append, List.length_singleton]
        omega

/-- Fed one at a time or cut into blocks at once: the result is the same. -/
theorem feedAll_eq (hn : 0 < n) (s : σ) (xs : List α) :
    feedAll n f (s, []) xs = ((blocks n xs).foldl f s, afterBlocks n xs) := by
  induction xs using block_induction hn generalizing s with
  | short xs hshort =>
    rw [blocks_short hshort, afterBlocks_short hshort, feedAll_short]
    · rfl
    · rwa [List.length_nil, Nat.zero_add]
  | block b xs hb ih =>
    have hne : b ≠ [] := by
      rintro rfl
      exact absurd hb (Nat.ne_of_lt hn)
    rw [blocks_append hn hb, afterBlocks_append hn hb, feedAll_append, feedAll_full hne, ih]
    · rfl
    · rwa [List.length_nil, Nat.zero_add]

/-- Where each block gives a few elements, the result is what all blocks give. -/
theorem feedAll_flatMap {β : Type*} (hn : 0 < n) (g : List α → List β) (xs : List α) :
    feedAll n (fun ret b => ret ++ g b) ([], []) xs =
      ((blocks n xs).flatMap g, afterBlocks n xs) := by
  have hfold (bs : List (List α)) (ret : List β) :
      bs.foldl (fun ret b => ret ++ g b) ret = ret ++ bs.flatMap g := by
    induction bs generalizing ret with
    | nil => exact (List.append_nil ret).symm
    | cons b bs ih => rw [List.foldl_cons, ih, List.flatMap_cons, List.append_assoc]
  rw [feedAll_eq hn, hfold, List.nil_append]

end Reasoning
