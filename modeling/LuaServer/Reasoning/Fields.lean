import Mathlib.Data.List.Basic
import Mathlib.Data.List.Infix
import Mathlib.Tactic.Common

/-!
# Fields — a text between separators

What core's `splitOn` and `intercalate` say of a text with one separator and of a table with two, and
a rule for loops over the pieces.  A reader that stops at the end of the text does not see an empty
piece there.
-/

namespace Reasoning

variable {α : Type*} [DecidableEq α] {sep : α} {text : List α}

/-! ## 1. Pieces -/

theorem not_mem_of_mem_splitOn {piece : List α} (h : piece ∈ text.splitOn sep) : sep ∉ piece := by
  induction text generalizing piece with
  | nil =>
    rw [List.splitOn_nil, List.mem_singleton] at h
    subst h
    exact List.not_mem_nil
  | cons c text ih =>
    rw [List.splitOn_cons_eq_if_modifyHead] at h
    by_cases heq : c = sep
    · rw [if_pos (beq_iff_eq.mpr heq)] at h
      rcases List.mem_cons.mp h with rfl | hpiece
      · exact List.not_mem_nil
      · exact ih hpiece
    · rw [if_neg (by simpa using heq)] at h
      obtain ⟨first, rest, hsplit⟩ := List.exists_cons_of_ne_nil (List.splitOn_ne_nil sep text)
      rw [hsplit] at h ih
      rcases List.mem_cons.mp h with rfl | hpiece
      · have hfirst : sep ∉ first := ih List.mem_cons_self
        simp [hfirst, Ne.symm heq]
      · exact ih (List.mem_cons_of_mem first hpiece)

/-- A separator inside makes more than one piece. -/
theorem splitOn_eq_cons_cons (h : sep ∈ text) :
    ∃ first second rest, text.splitOn sep = first :: second :: rest := by
  obtain ⟨piece, behind, rfl, hnot⟩ := List.eq_append_cons_of_mem h
  obtain ⟨second, rest, hsplit⟩ := List.exists_cons_of_ne_nil (List.splitOn_ne_nil sep behind)
  exact ⟨piece, second, rest, by rw [List.splitOn_append_cons_self_of_not_mem hnot, hsplit]⟩

omit [DecidableEq α] in
theorem not_mem_intercalate {a : α} (hne : a ≠ sep) {pieces : List (List α)}
    (h : ∀ piece ∈ pieces, a ∉ piece) : a ∉ [sep].intercalate pieces := by
  induction pieces with
  | nil => simp
  | cons piece pieces ih =>
    obtain ⟨hpiece, hpieces⟩ := List.forall_mem_cons.mp h
    by_cases hnil : pieces = []
    · subst hnil
      rwa [List.intercalate_singleton]
    · rw [List.intercalate_cons_of_ne_nil hnil]
      simp [hpiece, hne, ih hpieces]

/-- A table is read back line by line and then piece by piece. -/
theorem splitOn_lines {newline : α} (hne : newline ≠ sep) {rows : List (List (List α))}
    (hrows : rows ≠ []) (h : ∀ row ∈ rows, ∀ cell ∈ row, newline ∉ cell) :
    ([newline].intercalate (rows.map [sep].intercalate)).splitOn newline =
      rows.map [sep].intercalate := by
  apply List.splitOn_intercalate
  · intro line hline
    obtain ⟨row, hrow, rfl⟩ := List.mem_map.mp hline
    exact not_mem_intercalate hne (h row hrow)
  · simpa using hrows

/-- A loop that cuts one piece off in each turn. -/
theorem loop_eq_of_cut {β : Type*} (sep : α) (loop : Nat → List α → β) (result : List α → β)
    (hlast : ∀ fuel text, sep ∉ text → loop (fuel + 1) text = result text)
    (hcut : ∀ fuel piece rest, sep ∉ piece → loop fuel rest = result rest →
      loop (fuel + 1) (piece ++ sep :: rest) = result (piece ++ sep :: rest))
    {fuel : Nat} {text : List α} (h : text.length < fuel) : loop fuel text = result text := by
  induction fuel generalizing text with
  | zero => omega
  | succ fuel ih =>
    by_cases hmem : sep ∈ text
    · obtain ⟨piece, rest, rfl, hnot⟩ := List.eq_append_cons_of_mem hmem
      have hlen : rest.length < fuel := by
        rw [List.length_append, List.length_cons] at h
        omega
      exact hcut fuel piece rest hnot (ih hlen)
    · exact hlast fuel text hmem

/-! ## 2. Without an empty end -/

/-- The pieces but for an empty last one. -/
def trimEnd (pieces : List (List α)) : List (List α) :=
  if pieces.getLast? = some [] then pieces.dropLast else pieces

theorem trimEnd_cons {piece : List α} {pieces : List (List α)} (h : pieces ≠ []) :
    trimEnd (piece :: pieces) = piece :: trimEnd pieces := by
  obtain ⟨next, rest, rfl⟩ := List.exists_cons_of_ne_nil h
  rw [trimEnd, trimEnd, List.getLast?_cons_cons, List.dropLast_cons_cons]
  split <;> rfl

theorem trimEnd_singleton (piece : List α) :
    trimEnd [piece] = if piece = [] then [] else [piece] := by
  simp [trimEnd]

theorem trimEnd_of_getLast? {pieces : List (List α)} (h : pieces.getLast? ≠ some []) :
    trimEnd pieces = pieces := if_neg h

theorem length_trimEnd_lt {pieces : List (List α)} (h : pieces.getLast? = some []) :
    (trimEnd pieces).length < pieces.length := by
  have hne : pieces ≠ [] := by
    rintro rfl
    cases h
  have hpos := List.length_pos_of_ne_nil hne
  rw [trimEnd, if_pos h, List.length_dropLast]
  omega

theorem length_trimEnd_le (pieces : List (List α)) : (trimEnd pieces).length ≤ pieces.length := by
  unfold trimEnd
  split
  · exact (List.dropLast_prefix pieces).length_le
  · exact Nat.le_refl _

end Reasoning
