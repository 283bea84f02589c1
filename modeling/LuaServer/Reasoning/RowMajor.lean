import Mathlib.Tactic.Common

/-!
# RowMajor — a table as the list of its rows one behind the other

All rows have the same length, so that the element at row `r` and column `c` stands at
`r * width + c`.
-/

namespace Reasoning

variable {α β : Type*} {row : α → List β} {width : Nat}

theorem length_rowMajor (h : ∀ a, (row a).length = width) (as : List α) :
    (as.flatMap row).length = as.length * width := by
  induction as with
  | nil => rw [List.flatMap_nil, List.length_nil, List.length_nil, Nat.zero_mul]
  | cons a as ih =>
    rw [List.flatMap_cons, List.length_append, h, ih, List.length_cons, Nat.succ_mul, Nat.add_comm]

theorem getElem?_rowMajor (h : ∀ a, (row a).length = width) (as : List α) (r : Nat) {c : Nat}
    (hc : c < width) : (as.flatMap row)[r * width + c]? = as[r]?.bind fun a => (row a)[c]? := by
  induction as generalizing r with
  | nil => rfl
  | cons a as ih =>
    rw [List.flatMap_cons]
    cases r with
    | zero =>
      rw [Nat.zero_mul, Nat.zero_add, List.getElem?_append_left (by rwa [h])]
      rfl
    | succ r =>
      rw [List.getElem?_append_right (by rw [h, Nat.succ_mul]; omega), h,
        show (r + 1) * width + c - width = r * width + c by rw [Nat.succ_mul]; omega, ih]
      rfl

end Reasoning
