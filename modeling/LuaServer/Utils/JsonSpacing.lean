import LuaServer.Utils.JsonGrammar

/-!
# JsonSpacing — blanks between the tokens

Blanks that are put between the tokens of an accepted text leave the row of tokens as it is.  The
reader gives the same tree, unless blanks have come to stand where it looks at the next character
without passing over them.
-/

open Reasoning

namespace LuaServer

namespace JsonText

open JsonReader

variable {Float : Type} {stof : List UInt8 → Option Float}

/-- The same tokens, with more blanks in the gaps and behind the last token. -/
inductive Spaced (last last' : Gap) : List Piece → List Piece → Prop
  | nil (hlast : last.1.Sublist last'.1) : Spaced last last' [] []
  | cons {gap gap' : Gap} (tok : Token) {ps ps' : List Piece} (hgap : gap.1.Sublist gap'.1)
      (h : Spaced last last' ps ps') : Spaced last last' ((gap, tok) :: ps) ((gap', tok) :: ps')

section
variable {ps ps' : List Piece} {last last' : Gap}

theorem Spaced.tokens_eq (h : Spaced last last' ps ps') : tokens ps' = tokens ps := by
  induction h with
  | nil _ => rfl
  | cons tok _ _ ih => exact congrArg (tok :: ·) ih

theorem peek_text (tok : Token) (next next' : List UInt8) :
    peek (tok.text ++ next) = peek (tok.text ++ next') := by
  have hlt := (tok.begins []).lt
  cases htext : tok.text with
  | nil =>
    rw [htext] at hlt
    exact absurd hlt (by decide)
  | cons c text => rfl

/-- The next character is the same as before, or it is no longer one of a token. -/
theorem peek_spaced (h : Spaced last last' ps ps') :
    peek (render ps' last'.1) = peek (render ps last.1) ∨ peek (render ps' last'.1) ≤ 32 := by
  cases h with
  | nil _ =>
    have hlast := peek_gap last' []
    rw [List.append_nil] at hlast
    rcases hlast with hpeek | hblank
    · exact .inr (by rw [render, hpeek]; decide)
    · exact .inr hblank.2
  | @cons gap gap' tok ps ps' hgap h =>
    rcases peek_gap gap' (tok.text ++ render ps' last'.1) with hpeek | hblank
    · by_cases hnil : gap'.1 = []
      · rw [hnil, List.sublist_nil] at hgap
        left
        rw [render, render, hnil, hgap]
        exact peek_text tok _ _
      · obtain ⟨c, ws, hws⟩ := List.exists_cons_of_ne_nil hnil
        right
        rw [render, hws]
        exact (gap'.2 c (hws ▸ List.mem_cons_self)).2
    · exact .inr hblank.2

theorem ends_of_le {tok : Token} {next : List UInt8} (h : peek next ≤ 32) : tok.Ends next := by
  have hne : ∀ c : UInt8, 32 < c → peek next ≠ c := by
    rintro c hc rfl
    exact absurd h (UInt8.not_le.mpr hc)
  cases tok with
  | number minus ds hds =>
    refine ⟨Bool.eq_false_iff.mpr fun hdigit => ?_, hne 46 (by decide), hne 101 (by decide),
      hne 69 (by decide)⟩
    exact absurd (UInt8.le_trans (isDigit_bounds hdigit).1 h) (by decide)
  | _ => trivial

theorem ends_congr {tok : Token} {next next' : List UInt8} (h : peek next' = peek next)
    (hends : tok.Ends next) : tok.Ends next' := by
  cases tok with
  | number minus ds hds =>
    unfold Token.Ends
    rwa [h]
  | _ => trivial

theorem Spaced.ends (h : Spaced last last' ps ps') (hends : Each Piece.Ends ps last.1) :
    Each Piece.Ends ps' last'.1 := by
  induction h with
  | nil _ => trivial
  | @cons gap gap' tok ps ps' _ h ih =>
    refine ⟨?_, ih hends.2⟩
    rcases peek_spaced h with hpeek | hblank
    · exact ends_congr hpeek hends.1
    · exact ends_of_le hblank

end

/-- With blanks put between its tokens, an accepted text gives the same tree exactly if no gap has
come to stand in front of a colon or in an empty array or object. -/
theorem spacing_right_iff {text : List UInt8} {t : JBaseObj Float} (hzero : 0 ∉ text)
    (h : Parses stof text t) :
    (∃ ps last, Lexes text ps last) ∧
      ∀ (ps : List Piece) (last : Gap), Lexes text ps last →
        ∀ (ps' : List Piece) (last' : Gap), Spaced last last' ps ps' →
          (Parses stof (render ps' last'.1) t ↔ Each Piece.Snug ps' last'.1) := by
  constructor
  · obtain ⟨ps, last, htaken⟩ := taken_of_parses hzero h
    exact ⟨ps, last, htaken.lexes⟩
  · intro ps last hlexes ps' last' hspaced
    have hderives := ((hlexes.parses_iff t).mp h).2
    have hlexes' : Lexes (render ps' last'.1) ps' last' :=
      ⟨rfl, hspaced.ends hlexes.ends⟩
    rw [hlexes'.parses_iff t, hspaced.tokens_eq]
    exact and_iff_left hderives

/-- The pieces of `{"a":1}`: `colon` is the gap in front of the colon, and `gap` all the others. -/
def memberPieces (gap colon : Gap) : List Piece :=
  [(gap, .leftBrace), (gap, .str false false [97] rfl), (colon, .colon),
    (gap, .number false [49] isNumeral_one), (gap, .rightBrace)]

theorem memberPieces_spaced (gap colon : Gap) :
    Spaced noGap gap (memberPieces noGap noGap) (memberPieces gap colon) :=
  .cons _ (List.nil_sublist _) (.cons _ (List.nil_sublist _) (.cons _ (List.nil_sublist _)
    (.cons _ (List.nil_sublist _) (.cons _ (List.nil_sublist _) (.nil (List.nil_sublist _))))))

/-- `{"a":1}` with a blank at every place but in front of the colon. -/
theorem spacing_right_iff_member :
    Parses (fun _ => none) [32, 123, 32, 34, 97, 34, 58, 32, 49, 32, 125, 32]
      (.obj [([97], .int ⟨1, by decide⟩)] : JBaseObj Unit) := by
  have hparses : Parses (fun _ => none) [123, 34, 97, 34, 58, 49, 125]
      (.obj [([97], .int ⟨1, by decide⟩)] : JBaseObj Unit) := ⟨_, rfl⟩
  have hlexes : Lexes [123, 34, 97, 34, 58, 49, 125] (memberPieces noGap noGap) noGap :=
    ⟨rfl, by decide⟩
  have hspaced := memberPieces_spaced blankGap noGap
  exact ((spacing_right_iff (by decide) hparses).2 _ _ hlexes _ _ hspaced).mpr (by decide)

/-- `[]` and `{"a":1}` are accepted; `[ ]` and `{"a" :1}` are not. -/
theorem spacing_refused :
    (∃ ps ps' : List Piece, ∃ last : Gap, Lexes [91, 93] ps last ∧ Spaced last last ps ps' ∧
      render ps' last.1 = [91, 32, 93] ∧
      Parses (fun _ => none) [91, 93] (.array [] : JBaseObj Unit) ∧
      ¬ ∃ t : JBaseObj Unit, Parses (fun _ => none) [91, 32, 93] t) ∧
    ∃ ps ps' : List Piece, ∃ last : Gap, Lexes [123, 34, 97, 34, 58, 49, 125] ps last ∧
      Spaced last last ps ps' ∧ render ps' last.1 = [123, 34, 97, 34, 32, 58, 49, 125] ∧
      Parses (fun _ => none) [123, 34, 97, 34, 58, 49, 125]
        (.obj [([97], .int ⟨1, by decide⟩)] : JBaseObj Unit) ∧
      ¬ ∃ t : JBaseObj Unit, Parses (fun _ => none) [123, 34, 97, 34, 32, 58, 49, 125] t := by
  constructor
  · refine ⟨[(noGap, .leftBracket), (noGap, .rightBracket)],
      [(noGap, .leftBracket), (blankGap, .rightBracket)], noGap,
      ⟨rfl, by decide⟩, ?_, rfl, ⟨_, rfl⟩, ?_⟩
    · exact .cons _ (by decide) (.cons _ (by decide) (.nil (by decide)))
    · rintro ⟨t, rest, hparser⟩
      cases hparser
  · refine ⟨memberPieces noGap noGap, memberPieces noGap blankGap, noGap, ⟨rfl, by decide⟩, ?_,
      rfl, ⟨_, rfl⟩, ?_⟩
    · exact memberPieces_spaced noGap blankGap
    · rintro ⟨t, rest, hparser⟩
      cases hparser

end JsonText

end LuaServer
