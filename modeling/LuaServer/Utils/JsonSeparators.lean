import Mathlib.Data.List.Chain
import LuaServer.Utils.JsonGrammar

/-!
# JsonSeparators — which of the accepted texts are JSON

The reader goes on with the next element or member whether or not a comma has come, and in front of
a string it passes over a minus and a point.  An accepted text is JSON exactly if its row of tokens
shows neither.
-/

open Reasoning

namespace LuaServer

namespace JsonText

open JsonReader

variable {Float : Type} {stof : List UInt8 → Option Float}

/-- No value begins directly behind a value, and every string begins with its quotation mark. -/
def Separated (toks : List Token) : Prop :=
  toks.IsChain (fun tok next => tok.closes = true → next.opens = false) ∧
    ∀ tok ∈ toks, tok.clean = true

theorem separated_cons {tok : Token} {toks : List Token} :
    Separated (tok :: toks) ↔ tok.clean = true ∧
      (∀ next ∈ toks.head?, tok.closes = true → next.opens = false) ∧ Separated toks := by
  rw [Separated, Separated, List.isChain_cons, List.forall_mem_cons]
  tauto

theorem separated_append {toks toks' : List Token} :
    Separated (toks ++ toks') ↔ Separated toks ∧ Separated toks' ∧
      ∀ tok ∈ toks.getLast?, ∀ next ∈ toks'.head?, tok.closes = true → next.opens = false := by
  rw [Separated, Separated, Separated, List.isChain_append, List.forall_mem_append]
  tauto

theorem separated_singleton {tok : Token} : Separated [tok] ↔ tok.clean = true := by
  simp [Separated]

/-- A comma, bracket or brace behind a value. -/
theorem separated_concat {toks : List Token} {tok : Token} (h : Separated toks)
    (htok : tok.opens = false) : Separated (toks ++ [tok]) := by
  refine separated_append.mpr ⟨h, separated_singleton.mpr ?_, ?_⟩
  · cases tok <;> first | rfl | cases htok
  · rintro last - next hnext -
    obtain rfl : tok = next := Option.some.inj hnext
    exact htok

/-- A bracket or brace in front of a value, or a comma. -/
theorem separated_behind {toks : List Token} {tok : Token} (htok : tok.closes = false) :
    Separated (tok :: toks) ↔ Separated toks := by
  have hclean : tok.clean = true := by cases tok <;> first | rfl | cases htok
  rw [separated_cons, and_iff_right hclean, and_iff_right]
  intro next _ hcloses
  rw [htok] at hcloses
  cases hcloses

/-- A key with its colon. -/
theorem separated_key {key : List UInt8} (hkey : legible key = true) {toks : List Token} :
    Separated (.str false false key hkey :: .colon :: toks) ↔ Separated toks := by
  have hclean : (Token.str false false key hkey).clean = true := rfl
  rw [separated_cons, separated_behind rfl, and_iff_right hclean, and_iff_right]
  intro next hnext _
  obtain rfl : .colon = next := Option.some.inj hnext
  rfl

theorem Scalar.closes {tok : Token} {t : JBaseObj Float} (h : Scalar stof tok t) :
    tok.closes = true := by
  cases h <;> rfl

/-- How a phrase ends. -/
theorem Derives.closes {lenient : Bool} {phrase : Phrase Float} {toks : List Token}
    (h : Derives stof lenient phrase toks) : ∃ init tok, toks = init ++ [tok] ∧ tok.closes = true := by
  induction h with
  | scalar h _ => exact ⟨[], _, rfl, h.closes⟩
  | emptyArray => exact ⟨[.leftBracket], _, rfl, rfl⟩
  | emptyObj => exact ⟨[.leftBrace], _, rfl, rfl⟩
  | @array ts toks _ _ => exact ⟨.leftBracket :: toks, _, rfl, rfl⟩
  | @obj ms toks _ _ => exact ⟨.leftBrace :: toks, _, rfl, rfl⟩
  | item _ ih => exact ih
  | @items t ts toks sep toks' _ _ _ _ ih =>
    obtain ⟨init, tok, rfl, htok⟩ := ih
    exact ⟨toks ++ (sep ++ init), tok, by simp, htok⟩
  | @member key hkey t toks _ ih =>
    obtain ⟨init, tok, rfl, htok⟩ := ih
    exact ⟨.str false false key hkey :: .colon :: init, tok, rfl, htok⟩
  | @members key hkey t ms toks sep toks' _ _ _ _ ih =>
    obtain ⟨init, tok, rfl, htok⟩ := ih
    exact ⟨.str false false key hkey :: .colon :: (toks ++ (sep ++ init)), tok, by simp, htok⟩

/-- A comma between two phrases. -/
theorem separated_comma {toks sep toks' : List Token} (hsep : Separator false sep)
    (h : Separated toks) (h' : Separated toks') : Separated (toks ++ (sep ++ toks')) := by
  rcases hsep with rfl | ⟨hfalse, -⟩
  · have hcomma := separated_append.mp (@separated_concat toks .comma h rfl)
    refine separated_append.mpr ⟨h, (separated_behind rfl).mpr h', ?_⟩
    exact hcomma.2.2
  · cases hfalse

/-- The grammar of JSON puts no two values next to each other. -/
theorem Derives.separated {phrase : Phrase Float} {toks : List Token}
    (h : Derives stof false phrase toks) : Separated toks := by
  induction h with
  | scalar _ hclean => exact separated_singleton.mpr (hclean.resolve_left Bool.false_ne_true)
  | emptyArray | emptyObj => exact (separated_behind rfl).mpr (separated_singleton.mpr rfl)
  | array _ ih | obj _ ih => exact (separated_behind rfl).mpr (separated_concat ih rfl)
  | item _ ih => exact ih
  | items _ hsep _ ih ihs => exact separated_comma hsep ih ihs
  | member hkey _ ih => exact (separated_key hkey).mpr ih
  | members hkey _ hsep _ ih ihs => exact (separated_key hkey).mpr (separated_comma hsep ih ihs)

/-- A separator that is left out puts two values next to each other. -/
theorem separator_of_separated {phrase phrase' : Phrase Float} {toks sep toks' : List Token}
    (h : Derives stof true phrase toks) (h' : Derives stof true phrase' toks')
    (hsep : Separator true sep) (hseparated : Separated (toks ++ (sep ++ toks'))) :
    Separator false sep ∧ Separated toks ∧ Separated toks' := by
  obtain ⟨htoks, htail, hbetween⟩ := separated_append.mp hseparated
  refine ⟨?_, htoks, (separated_append.mp htail).2.1⟩
  rcases hsep with rfl | ⟨-, rfl⟩
  · exact .inl rfl
  · obtain ⟨init, tok, rfl, hcloses⟩ := h.closes
    obtain ⟨next, toks', rfl, hopens⟩ := h'.opens
    have hfalse := hbetween tok (by simp) next rfl hcloses
    rw [hopens] at hfalse
    cases hfalse

theorem Derives.strict {phrase : Phrase Float} {toks : List Token}
    (h : Derives stof true phrase toks) (hseparated : Separated toks) :
    Derives stof false phrase toks := by
  induction h with
  | scalar h _ => exact .scalar h (.inr (separated_singleton.mp hseparated))
  | emptyArray => exact .emptyArray
  | emptyObj => exact .emptyObj
  | array _ ih =>
    exact .array (ih (separated_append.mp ((separated_behind rfl).mp hseparated)).1)
  | obj _ ih => exact .obj (ih (separated_append.mp ((separated_behind rfl).mp hseparated)).1)
  | item _ ih => exact .item (ih hseparated)
  | items h hsep hs ih ihs =>
    obtain ⟨hsep, htoks, htoks'⟩ := separator_of_separated h hs hsep hseparated
    exact .items (ih htoks) hsep (ihs htoks')
  | member hkey _ ih => exact .member hkey (ih ((separated_key hkey).mp hseparated))
  | members hkey h hsep hs ih ihs =>
    obtain ⟨hsep, htoks, htoks'⟩ :=
      separator_of_separated h hs hsep ((separated_key hkey).mp hseparated)
    exact .members hkey (ih htoks) hsep (ihs htoks')

/-- An accepted text is a row of tokens, and it is JSON exactly if no value stands directly behind
another and nothing in front of a string. -/
theorem separators_right_iff {text : List UInt8} {t : JBaseObj Float} (hzero : 0 ∉ text)
    (h : Parses stof text t) :
    (∃ ps last, Lexes text ps last) ∧ ∀ ps last, Lexes text ps last →
      ((∃ t', Derives stof false (.value t') (tokens ps)) ↔ Separated (tokens ps)) := by
  constructor
  · obtain ⟨ps, last, htaken⟩ := taken_of_parses hzero h
    exact ⟨ps, last, htaken.lexes⟩
  · intro ps last hlexes
    have hderives := ((hlexes.parses_iff t).mp h).2
    exact ⟨fun ⟨t', hstrict⟩ => hstrict.separated, fun hseparated =>
      ⟨t, hderives.strict hseparated⟩⟩

/-- The row of tokens of `[1 sep 2]`, without gaps around the brackets. -/
def onePair (sep : List Piece) : List Piece :=
  (noGap, .leftBracket) :: (noGap, .number false [49] isNumeral_one) ::
    (sep ++ [(blankGap, .number false [50] rfl), (noGap, .rightBracket)])

/-- `[1, 2]` is JSON. -/
theorem separators_right_iff_comma : ∃ ps last, Lexes [91, 49, 44, 32, 50, 93] ps last ∧
    ∃ t' : JBaseObj Unit, Derives (fun _ => none) false (.value t') (tokens ps) := by
  have hparses : Parses (fun _ => none) [91, 49, 44, 32, 50, 93]
      (.array [.int ⟨1, by decide⟩, .int ⟨2, by decide⟩] : JBaseObj Unit) := ⟨_, rfl⟩
  have hlexes : Lexes [91, 49, 44, 32, 50, 93] (onePair [(noGap, .comma)]) noGap :=
    ⟨rfl, by decide⟩
  have hseparated : Separated (tokens (onePair [(noGap, .comma)])) := by
    unfold Separated
    decide
  exact ⟨_, _, hlexes, ((separators_right_iff (by decide) hparses).2 _ _ hlexes).mpr hseparated⟩

/-- `[1 2]` and `-"a"` are accepted and are no JSON. -/
theorem separators_left_out :
    (∃ t : JBaseObj Unit, Parses (fun _ => none) [91, 49, 32, 50, 93] t) ∧
    (¬ ∃ ps last, Lexes [91, 49, 32, 50, 93] ps last ∧
      ∃ t' : JBaseObj Unit, Derives (fun _ => none) false (.value t') (tokens ps)) ∧
    (∃ t : JBaseObj Unit, Parses (fun _ => none) [45, 34, 97, 34] t) ∧
    ¬ ∃ ps last, Lexes [45, 34, 97, 34] ps last ∧
      ∃ t' : JBaseObj Unit, Derives (fun _ => none) false (.value t') (tokens ps) := by
  have hpair : Lexes [91, 49, 32, 50, 93] (onePair []) noGap := ⟨rfl, by decide⟩
  have hstr : Lexes [45, 34, 97, 34] [(noGap, .str true false [97] rfl)] noGap :=
    ⟨rfl, by decide⟩
  refine ⟨⟨.array [.int ⟨1, by decide⟩, .int ⟨2, by decide⟩], _, rfl⟩, ?_, ⟨.str [97], _, rfl⟩, ?_⟩
  · rintro ⟨ps, last, hlexes, t', hderives⟩
    obtain ⟨rfl, rfl⟩ := hpair.unique hlexes
    exact absurd hderives.separated (by unfold Separated; decide)
  · rintro ⟨ps, last, hlexes, t', hderives⟩
    obtain ⟨rfl, rfl⟩ := hstr.unique hlexes
    exact absurd hderives.separated (by unfold Separated; decide)

end JsonText

end LuaServer
