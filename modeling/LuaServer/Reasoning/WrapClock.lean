import Mathlib.Algebra.Order.Group.Nat
import Mathlib.Tactic.Common

/-!
# WrapClock — instants known by their remainders

A clock that wraps shows an instant modulo `W`.  Two instants that lie between the same two
multiples of `W` compare like their remainders; when a multiple of `W` lies between them, what their
remainders say is right only if they happen to stand in the same order.
-/

namespace Reasoning

/-- A multiple of `W` lies above `a` and not above `b`. -/
def Wraps (W a b : Nat) : Prop := a / W < b / W

instance (W a b : Nat) : Decidable (Wraps W a b) := inferInstanceAs (Decidable (_ < _))

variable {W a b : Nat}

theorem not_wraps_of_le (h : b ≤ a) : ¬ Wraps W a b :=
  Nat.not_lt.mpr (Nat.div_le_div_right h)

theorem Wraps.lt (h : Wraps W a b) : a < b := Nat.lt_of_div_lt_div h

/-- In one period the remainders compare like the instants. -/
theorem mod_lt_iff_of_div_eq (h : a / W = b / W) : a % W < b % W ↔ a < b := by
  have ha := Nat.div_add_mod a W
  have hb := Nat.div_add_mod b W
  rw [h] at ha
  omega

/-- Whether an instant lies behind another one, from the remainders. -/
theorem mod_lt_right_iff : (a % W < b % W ↔ a < b) ↔
    (Wraps W a b → a % W < b % W) ∧ (Wraps W b a → b % W ≤ a % W) := by
  rcases lt_trichotomy (a / W) (b / W) with hlt | heq | hgt
  · have hab : a < b := Wraps.lt hlt
    have hno : ¬ Wraps W b a := not_wraps_of_le hab.le
    simp only [hab, iff_true, hno, false_implies, and_true]
    exact ⟨fun h _ => h, fun h => h hlt⟩
  · have hab : ¬ Wraps W a b := by rw [Wraps, heq]; exact lt_irrefl _
    have hba : ¬ Wraps W b a := by rw [Wraps, heq]; exact lt_irrefl _
    exact iff_of_true (mod_lt_iff_of_div_eq heq) ⟨fun h => absurd h hab, fun h => absurd h hba⟩
  · have hba : b < a := Wraps.lt hgt
    have hno : ¬ Wraps W a b := not_wraps_of_le hba.le
    simp only [hba.not_gt, iff_false, Nat.not_lt, hno, false_implies, true_and]
    exact ⟨fun h _ => h, fun h => h hgt⟩

/-- An instant that is seen to have come has come. -/
theorem le_of_mod_le (hwraps : ¬ Wraps W b a) (hmod : a % W ≤ b % W) : a ≤ b := by
  rcases (Nat.not_lt.mp hwraps).lt_or_eq with hlt | heq
  · exact (Nat.lt_of_div_lt_div hlt).le
  · have hlater := (mod_lt_iff_of_div_eq heq.symm).not
    omega

/-- Whether an instant that has come is seen to have come. -/
theorem mod_le_of_le_iff : (a ≤ b → a % W ≤ b % W) ↔ (Wraps W a b → a % W ≤ b % W) := by
  constructor
  · intro h hwraps
    exact h hwraps.lt.le
  · intro h hle
    rcases (Nat.div_le_div_right (c := W) hle).lt_or_eq with hlt | heq
    · exact h hlt
    · have hback := (mod_lt_iff_of_div_eq heq.symm).not
      omega

end Reasoning
