import Mathlib.Tactic.Common

/-!
# Decimal — decimal numerals as bytes

The numeral of a number, the number of a numeral, and that the first takes back to the second.
-/

namespace Reasoning

/-- `'0' … '9'`. -/
def isDigit (c : UInt8) : Bool := 48 ≤ c && c ≤ 57

def numeral (n : Nat) : List UInt8 := (Nat.toDigits 10 n).map fun c => UInt8.ofNat c.toNat

/-- `%d`. -/
def intNumeral (i : Int) : List UInt8 :=
  if i < 0 then 45 :: numeral i.natAbs else numeral i.natAbs

/-- `%.2d` of a number that is not negative. -/
def numeral2 (n : Nat) : List UInt8 := if n < 10 then 48 :: numeral n else numeral n

def ofNumeral (ds : List UInt8) : Nat := ds.foldl (fun n c => 10 * n + (c.toNat - 48)) 0

theorem numeral_ne_nil (n : Nat) : numeral n ≠ [] := by
  rw [numeral, ne_eq, List.map_eq_nil_iff]
  exact Nat.toDigits_ne_nil

theorem toNat_ofNat_digit {c : Char} (h : c.isDigit = true) :
    48 ≤ c.toNat ∧ (UInt8.ofNat c.toNat).toNat = c.toNat ∧ c.toNat ≤ 57 := by
  have hc : 48 ≤ c.toNat ∧ c.toNat ≤ 57 := by
    simpa [Char.isDigit, Char.le_def, UInt32.le_iff_toNat_le] using h
  refine ⟨hc.1, ?_, hc.2⟩
  rw [UInt8.toNat_ofNat']
  omega

theorem isDigit_of_mem_numeral {n : Nat} {c : UInt8} (h : c ∈ numeral n) : isDigit c = true := by
  obtain ⟨d, hd, rfl⟩ := List.mem_map.mp h
  obtain ⟨hlo, heq, hhi⟩ :=
    toNat_ofNat_digit (Nat.isDigit_of_mem_toDigits (by decide) (by decide) hd)
  rw [isDigit, Bool.and_eq_true, decide_eq_true_eq, decide_eq_true_eq, UInt8.le_iff_toNat_le,
    UInt8.le_iff_toNat_le, heq]
  exact ⟨hlo, hhi⟩

theorem numeral_head (n : Nat) : ∃ c ds, numeral n = c :: ds ∧ isDigit c = true := by
  obtain ⟨c, ds, h⟩ := List.exists_cons_of_ne_nil (numeral_ne_nil n)
  exact ⟨c, ds, h, isDigit_of_mem_numeral (n := n) (h ▸ List.mem_cons_self)⟩

/-- The digits in front of something that is no digit. -/
theorem takeWhile_isDigit {ds rest : List UInt8} (hds : ∀ c ∈ ds, isDigit c = true)
    (hrest : ∀ c ∈ rest.head?, isDigit c = false) : (ds ++ rest).takeWhile isDigit = ds := by
  rw [List.takeWhile_append_of_pos hds]
  cases rest with
  | nil => rw [List.takeWhile_nil, List.append_nil]
  | cons c rest =>
    have hc : isDigit c = false := hrest c rfl
    rw [List.takeWhile_cons_of_neg (by rw [hc]; exact Bool.false_ne_true), List.append_nil]

theorem ofNumeral_numeral (n : Nat) : ofNumeral (numeral n) = n := by
  -- on digits the bytes have the values of the characters
  have hfold : ∀ (ds : List Char) (init : Nat), (∀ d ∈ ds, d.isDigit = true) →
      (ds.map fun c => UInt8.ofNat c.toNat).foldl (fun n c => 10 * n + (c.toNat - 48)) init =
        Nat.ofDigitChars 10 ds init := by
    intro ds
    induction ds with
    | nil =>
      intro init _
      rfl
    | cons d ds ih =>
      intro init h
      rw [List.map_cons, List.foldl_cons, (toNat_ofNat_digit (h d List.mem_cons_self)).2.1,
        ih _ fun e he => h e (List.mem_cons_of_mem d he), Nat.ofDigitChars_cons]
      rfl
  rw [ofNumeral, numeral, hfold _ 0 fun d hd =>
    Nat.isDigit_of_mem_toDigits (by decide) (by decide) hd, Nat.ofDigitChars_ten_toDigits]

/-- A numeral ends where there is no digit. -/
theorem numeral_unique {n n' : Nat} {r r' : List UInt8} (hr : ∀ c ∈ r.head?, isDigit c = false)
    (hr' : ∀ c ∈ r'.head?, isDigit c = false) (heq : numeral n ++ r = numeral n' ++ r') :
    n = n' ∧ r = r' := by
  have hdigits := congrArg (List.takeWhile isDigit) heq
  rw [takeWhile_isDigit (fun _ hc => isDigit_of_mem_numeral hc) hr,
    takeWhile_isDigit (fun _ hc => isDigit_of_mem_numeral hc) hr'] at hdigits
  have hn := congrArg ofNumeral hdigits
  rw [ofNumeral_numeral, ofNumeral_numeral] at hn
  subst hn
  exact ⟨rfl, List.append_cancel_left heq⟩

theorem minus_ne_numeral (n : Nat) (ds r : List UInt8) : 45 :: ds ≠ numeral n ++ r := by
  obtain ⟨c, ds', hn, hc⟩ := numeral_head n
  rw [hn]
  intro heq
  obtain ⟨rfl, -⟩ := List.cons.inj heq
  exact absurd hc (by decide)

theorem intNumeral_unique {i i' : Int} {r r' : List UInt8} (hr : ∀ c ∈ r.head?, isDigit c = false)
    (hr' : ∀ c ∈ r'.head?, isDigit c = false) (heq : intNumeral i ++ r = intNumeral i' ++ r') :
    i = i' ∧ r = r' := by
  unfold intNumeral at heq
  by_cases hi : i < 0
  · by_cases hi' : i' < 0
    · rw [if_pos hi, if_pos hi'] at heq
      obtain ⟨hn, hrest⟩ := numeral_unique hr hr' (List.cons.inj heq).2
      exact ⟨by omega, hrest⟩
    · rw [if_pos hi, if_neg hi'] at heq
      exact absurd heq (minus_ne_numeral _ _ _)
  · by_cases hi' : i' < 0
    · rw [if_neg hi, if_pos hi'] at heq
      exact absurd heq.symm (minus_ne_numeral _ _ _)
    · rw [if_neg hi, if_neg hi'] at heq
      obtain ⟨hn, hrest⟩ := numeral_unique hr hr' heq
      exact ⟨by omega, hrest⟩

theorem intNumeral_inj {i j : Int} : intNumeral i = intNumeral j ↔ i = j := by
  refine ⟨fun h => ?_, congrArg intNumeral⟩
  have hnil : ∀ c ∈ ([] : List UInt8).head?, isDigit c = false := by simp
  have heq : intNumeral i ++ [] = intNumeral j ++ [] := by rw [h]
  exact (intNumeral_unique hnil hnil heq).1

theorem mem_intNumeral {i : Int} {c : UInt8} (h : c ∈ intNumeral i) : c = 45 ∨ isDigit c = true := by
  unfold intNumeral at h
  split at h
  · exact (List.mem_cons.mp h).imp_right isDigit_of_mem_numeral
  · exact .inr (isDigit_of_mem_numeral h)

theorem isDigit_of_mem_numeral2 {n : Nat} {c : UInt8} (h : c ∈ numeral2 n) : isDigit c = true := by
  unfold numeral2 at h
  split at h
  · rcases List.mem_cons.mp h with rfl | h
    · rfl
    · exact isDigit_of_mem_numeral h
  · exact isDigit_of_mem_numeral h

theorem ofNumeral_numeral2 (n : Nat) : ofNumeral (numeral2 n) = n := by
  unfold numeral2
  split
  · exact ofNumeral_numeral n
  · exact ofNumeral_numeral n

theorem length_numeral2 {n : Nat} (h : n < 100) : (numeral2 n).length = 2 := by
  have hall : ∀ n < 100, (numeral2 n).length = 2 := by decide +kernel
  exact hall n h

end Reasoning
