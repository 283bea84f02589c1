import Mathlib.Data.List.Basic
import Mathlib.Data.List.Infix

/-!
# MessageHead — lines and an empty line

The head of a text message: lines, each ended by CR LF, and an empty line.  Where the lines are not
empty and free of CR, the empty line is the only one, and the head determines the lines.
-/

namespace Reasoning

/-- The lines, each with CR LF, and CR LF. -/
def headText (lines : List (List UInt8)) : List UInt8 :=
  (lines.map fun l => l ++ [13, 10]).flatten ++ [13, 10]

def IsLine (l : List UInt8) : Prop := l ≠ [] ∧ 13 ∉ l

variable {lines lines' : List (List UInt8)}

theorem split_at_inj {α : Type*} {l l' r r' : List α} {c : α} (h : c ∉ l) (h' : c ∉ l')
    (heq : l ++ c :: r = l' ++ c :: r') : l = l' ∧ r = r' := by
  rcases List.append_eq_append_iff.mp heq with ⟨m, rfl, hm⟩ | ⟨m, rfl, hm⟩
  · cases m with
    | nil => exact ⟨(List.append_nil l).symm, (List.cons.inj hm).2⟩
    | cons a as =>
      have ha := (List.cons.inj hm).1
      exact absurd (List.mem_append_right l (ha ▸ List.mem_cons_self)) h'
  · cases m with
    | nil => exact ⟨List.append_nil l', (List.cons.inj hm).2.symm⟩
    | cons a as =>
      have ha := (List.cons.inj hm).1
      exact absurd (List.mem_append_right l' (ha ▸ List.mem_cons_self)) h

theorem headText_cons (l : List UInt8) (ls : List (List UInt8)) :
    headText (l :: ls) = l ++ 13 :: 10 :: headText ls := by
  simp only [headText, List.map_cons, List.flatten_cons, List.append_assoc]
  rfl

/-- The end of the last line and the empty line end the head. -/
theorem blankLine_suffix (h : lines ≠ []) : [13, 10, 13, 10] <:+ headText lines := by
  induction lines with
  | nil => exact absurd rfl h
  | cons l ls ih =>
    rw [headText_cons]
    cases ls with
    | nil => exact List.suffix_append _ _
    | cons l' ls' =>
      apply (ih (by simp)).trans
      exact (List.suffix_append (l ++ [13, 10]) _).trans (by simp)

/-- A line and an empty line stand together only at the end. -/
theorem blankLine_at (h : ∀ l ∈ lines, IsLine l) {i : Nat}
    (hi : [13, 10, 13, 10] <+: (headText lines).drop i) : i + 4 = (headText lines).length := by
  induction lines generalizing i with
  | nil =>
    have hlen := hi.length_le
    rw [List.length_drop] at hlen
    simp [headText] at hlen
    omega
  | cons l ls ih =>
    obtain ⟨⟨hne, hcr⟩, hls⟩ := List.forall_mem_cons.mp h
    rw [headText_cons] at hi ⊢
    have hlen : (l ++ 13 :: 10 :: headText ls).length = l.length + 2 + (headText ls).length := by
      simp only [List.length_append, List.length_cons]
      omega
    rw [hlen]
    rcases lt_trichotomy i l.length with hlt | heq | hgt
    · -- inside the line there is no CR
      rw [List.drop_append_of_le_length hlt.le, List.drop_eq_getElem_cons hlt,
        List.cons_append, List.cons_prefix_cons] at hi
      exact absurd (hi.1 ▸ List.getElem_mem hlt) hcr
    · rw [heq, List.drop_left] at hi
      have hrest : [13, 10] <+: headText ls := by
        rw [List.cons_prefix_cons, List.cons_prefix_cons] at hi
        exact hi.2.2
      cases ls with
      | nil =>
        rw [heq]
        rfl
      | cons l' ls' =>
        -- the next line does not begin with CR
        obtain ⟨⟨hne', hcr'⟩, -⟩ := List.forall_mem_cons.mp hls
        rw [headText_cons] at hrest
        cases l' with
        | nil => exact absurd rfl hne'
        | cons c cs =>
          rw [List.cons_append, List.cons_prefix_cons] at hrest
          exact absurd (by rw [hrest.1]; exact List.mem_cons_self) hcr'
    · obtain ⟨j, rfl⟩ : ∃ j, i = l.length + 1 + j := ⟨i - l.length - 1, by omega⟩
      have hdrop : (l ++ 13 :: 10 :: headText ls).drop (l.length + 1 + j) =
          (10 :: headText ls).drop j := by
        rw [Nat.add_assoc, ← List.drop_drop, List.drop_left, ← List.drop_drop]
        rfl
      rw [hdrop] at hi
      cases j with
      | zero =>
        rw [List.drop_zero, List.cons_prefix_cons] at hi
        exact absurd hi.1 (by decide)
      | succ j =>
        have := ih hls hi
        omega

theorem headText_inj (h : ∀ l ∈ lines, IsLine l) (h' : ∀ l ∈ lines', IsLine l)
    (heq : headText lines = headText lines') : lines = lines' := by
  -- an empty line is no line of a head
  have hcons : ∀ (l : List UInt8) ls, IsLine l → headText [] ≠ headText (l :: ls) := by
    rintro l ls ⟨hne, hcr⟩ heq
    rw [headText_cons] at heq
    cases l with
    | nil => exact hne rfl
    | cons c cs =>
      have hc : 13 = c := (List.cons.inj heq).1
      exact hcr (hc ▸ List.mem_cons_self)
  induction lines generalizing lines' with
  | nil =>
    cases lines' with
    | nil => rfl
    | cons l' ls' => exact absurd heq (hcons l' ls' (h' l' List.mem_cons_self))
  | cons l ls ih =>
    cases lines' with
    | nil => exact absurd heq.symm (hcons l ls (h l List.mem_cons_self))
    | cons l' ls' =>
      obtain ⟨⟨-, hcr⟩, hls⟩ := List.forall_mem_cons.mp h
      obtain ⟨⟨-, hcr'⟩, hls'⟩ := List.forall_mem_cons.mp h'
      rw [headText_cons, headText_cons] at heq
      obtain ⟨rfl, hrest⟩ := split_at_inj hcr hcr' heq
      rw [ih hls hls' (List.cons.inj hrest).2]

end Reasoning
