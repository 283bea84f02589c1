import LuaServer.Utils.JsonGrammar

/-!
# JsonRange — when the parser throws

`stoi` and `stof` throw on a numeral that does not fit their type, and the reader does not catch it.
The parser throws exactly if it comes to such a numeral: everything in front of it is what may stand
in front of a value.
-/

open Reasoning

namespace LuaServer

namespace JsonText

open JsonReader

variable {Float : Type} (stof : List UInt8 → Option Float)

/-! ## 1. Numerals that do not fit -/

/-- The `int` or `float` that the numeral stands for does not exist. -/
def Unfit (minus : Bool) (ds next : List UInt8) : Prop :=
  if 46 ∈ ds then stof (sign minus ++ ds ++ exponent next) = none
  else if minus then 2 ^ 31 < ofNumeral ds
  else 2 ^ 31 ≤ ofNumeral ds

theorem digits_of_isNumeral {ds : List UInt8} (h : isNumeral ds = true) (hpoint : 46 ∉ ds) :
    ∀ c ∈ ds, isDigit c = true := by
  intro c hc
  rcases (isNumeral_iff.mp h).1 c hc with rfl | hdigit
  · exact absurd hc hpoint
  · exact hdigit

theorem numberValue_eq_none {minus : Bool} {ds : List UInt8} (h : isNumeral ds = true)
    (next : List UInt8) : numberValue stof minus ds next = none ↔ Unfit stof minus ds next := by
  rw [numberValue, Unfit]
  by_cases hpoint : 46 ∈ ds
  · rw [if_pos hpoint, if_pos hpoint, Option.map_eq_none_iff]
  · have hdigits := digits_of_isNumeral h hpoint
    have htake : ds.takeWhile isDigit = ds := List.takeWhile_eq_self_iff.mpr hdigits
    rw [if_neg hpoint, if_neg hpoint, Option.map_eq_none_iff]
    cases minus with
    | true =>
      show stoi (45 :: ds) = none ↔ _
      simp only [stoi, peek_cons, go_one, if_true, htake, dite_eq_right_iff, reduceCtorEq, imp_false]
      omega
    | false =>
      have hpeek : peek ds ≠ 45 := by
        intro hc
        rw [peek_cases hc (by decide)] at hdigits
        exact absurd (hdigits 45 List.mem_cons_self) (by decide)
      show stoi ds = none ↔ _
      simp only [stoi, if_neg hpeek, htake, dite_eq_right_iff, reduceCtorEq, imp_false,
        Bool.false_eq_true, if_false]
      omega

/-! ## 2. What stands in front of a value -/

/-- Where the reader stands: in front of a value, or of the elements or members that are left. -/
inductive Place
  | value
  | items
  | members

/-- The tokens from a place of the reader to a value, with everything between them complete. -/
inductive Leads : Place → List Token → Prop
  | here : Leads .value []
  | array {toks : List Token} (h : Leads .items toks) : Leads .value (.leftBracket :: toks)
  | obj {toks : List Token} (h : Leads .members toks) : Leads .value (.leftBrace :: toks)
  | item {toks : List Token} (h : Leads .value toks) : Leads .items toks
  | items {t : JBaseObj Float} {toks sep toks' : List Token}
      (h : Derives stof true (.value t) toks) (hsep : Separator true sep)
      (hs : Leads .items toks') : Leads .items (toks ++ (sep ++ toks'))
  | member {key : List UInt8} (hkey : legible key = true) {toks : List Token}
      (h : Leads .value toks) : Leads .members (.str false false key hkey :: .colon :: toks)
  | members {key : List UInt8} (hkey : legible key = true) {t : JBaseObj Float}
      {toks sep toks' : List Token} (h : Derives stof true (.value t) toks)
      (hsep : Separator true sep) (hs : Leads .members toks') :
      Leads .members (.str false false key hkey :: .colon :: (toks ++ (sep ++ toks')))

/-- The text of a numeral that does not fit, with a gap in front of it. -/
def UnfitText (p : List UInt8) : Prop :=
  ∃ (gap : Gap) (minus : Bool) (ds next : List UInt8), isNumeral ds = true ∧ ScanEnds next ∧
    Unfit stof minus ds next ∧ p = gap.1 ++ (sign minus ++ ds ++ next)

/-- The reader comes from the place to a numeral that does not fit. -/
structure Blocked (place : Place) (p : List UInt8) (ps : List Piece) (rest : List UInt8) : Prop where
  text_eq : p = render ps rest
  ends : Each Piece.Ends ps rest
  snug : Each Piece.Snug ps rest
  leads : Leads stof place (tokens ps)
  unfit : UnfitText stof rest

variable {stof}

theorem UnfitText.startsValue {p : List UInt8} (h : UnfitText stof p) : StartsValue p := by
  obtain ⟨gap, minus, ds, next, hds, -, -, rfl⟩ := h
  exact @startsValue_piece (.number minus ds hds) rfl gap next

theorem Leads.opens {place : Place} {toks : List Token} (h : Leads stof place toks) :
    toks = [] ∨ ∃ tok rest, toks = tok :: rest ∧ tok.opens = true := by
  induction h with
  | here => exact .inl rfl
  | array | obj | member | members => exact .inr ⟨_, _, rfl, rfl⟩
  | item _ ih => exact ih
  | items h _ _ _ =>
    obtain ⟨tok, rest, rfl, htok⟩ := h.opens
    exact .inr ⟨tok, _, rfl, htok⟩

theorem Leads.startsValue {place : Place} {ps : List Piece} {toks : List Token}
    (h : Leads stof place toks) (hps : tokens ps = toks) {rest : List UInt8}
    (hunfit : UnfitText stof rest) : StartsValue (render ps rest) := by
  rcases h.opens with rfl | ⟨tok, toks', rfl, hopens⟩
  · rw [List.map_eq_nil_iff.mp hps]
    exact hunfit.startsValue
  · obtain ⟨gap, qs, rfl, -⟩ := tokens_eq_cons hps
    exact startsValue_piece hopens gap _

/-! ## 3. The parser throws there only -/

section
variable {p q rest : List UInt8} {ps qs : List Piece} {t : JBaseObj Float}

theorem Blocked.startsValue {place : Place} (h : Blocked stof place p ps rest) : StartsValue p := by
  rw [h.text_eq]
  exact h.leads.startsValue rfl h.unfit

theorem Blocked.array (h : Blocked stof .items p ps rest) (gap : Gap) :
    Blocked stof .value (gap.1 ++ 91 :: p) ((gap, .leftBracket) :: ps) rest := by
  refine ⟨?_, ⟨trivial, h.ends⟩, ⟨fun hclose => ?_, h.snug⟩, .array h.leads, h.unfit⟩
  · rw [h.text_eq]
    rfl
  · rw [← h.text_eq] at hclose
    exact absurd hclose h.startsValue.ne.2.2.1

theorem Blocked.obj (h : Blocked stof .members p ps rest) (gap : Gap) :
    Blocked stof .value (gap.1 ++ 123 :: p) ((gap, .leftBrace) :: ps) rest := by
  refine ⟨?_, ⟨trivial, h.ends⟩, ⟨fun hclose => ?_, h.snug⟩, .obj h.leads, h.unfit⟩
  · rw [h.text_eq]
    rfl
  · rw [← h.text_eq] at hclose
    exact absurd hclose h.startsValue.ne.2.2.2

theorem Blocked.item (h : Blocked stof .value p ps rest) : Blocked stof .items p ps rest :=
  ⟨h.text_eq, h.ends, h.snug, .item h.leads, h.unfit⟩

theorem Blocked.items (sep : List Piece) (h : Taken stof (.value t) p ps (render sep q))
    (hsep : sep = [] ∨ ∃ gap, sep = [(gap, .comma)]) (hq : Blocked stof .items q qs rest) :
    Blocked stof .items p (ps ++ (sep ++ qs)) rest := by
  obtain ⟨htext, hends, hsnug, hseparator⟩ := h.append sep hsep hq.text_eq hq.ends hq.snug
  refine ⟨htext, hends, hsnug, ?_, hq.unfit⟩
  rw [tokens_append, tokens_append]
  exact .items h.derives hseparator hq.leads

theorem Blocked.member {key : List UInt8} (hkey : legible key = true)
    (h : Blocked stof .value p ps rest) (gap : Gap) :
    Blocked stof .members (gap.1 ++ (JBaseObj.quoted key ++ 58 :: p))
      (memberHead gap key hkey ++ ps) rest := by
  refine ⟨?_, each_append.mpr ⟨⟨trivial, trivial, trivial⟩, h.ends⟩,
    each_append.mpr ⟨⟨trivial, rfl, trivial⟩, h.snug⟩, .member hkey h.leads, h.unfit⟩
  rw [render_append, ← h.text_eq, render_memberHead]

theorem Blocked.members {key : List UInt8} (hkey : legible key = true) (sep : List Piece)
    (h : Taken stof (.value t) p ps (render sep q))
    (hsep : sep = [] ∨ ∃ gap, sep = [(gap, .comma)]) (hq : Blocked stof .members q qs rest)
    (gap : Gap) :
    Blocked stof .members (gap.1 ++ (JBaseObj.quoted key ++ 58 :: p))
      (memberHead gap key hkey ++ (ps ++ (sep ++ qs))) rest := by
  obtain ⟨htext, hends, hsnug, hseparator⟩ := h.append sep hsep hq.text_eq hq.ends hq.snug
  refine ⟨?_, each_append.mpr ⟨⟨trivial, trivial, trivial⟩, hends⟩,
    each_append.mpr ⟨⟨trivial, rfl, trivial⟩, hsnug⟩, ?_, hq.unfit⟩
  · rw [render_append, ← htext, render_memberHead]
  · rw [tokens_append, tokens_memberHead, tokens_append, tokens_append, List.cons_append,
      List.cons_append, List.nil_append]
    exact .members hkey h.derives hseparator hq.leads

end

variable (stof) in
structure Throws (fuel : Nat) : Prop where
  value : ∀ {p : List UInt8}, reader stof fuel p = .outOfRange →
    ∃ ps rest, Blocked stof .value p ps rest
  items : ∀ {objs : List (JBaseObj Float)} {p : List UInt8},
    readItems stof fuel objs p = .outOfRange → ∃ ps rest, Blocked stof .items p ps rest
  members : ∀ {objs : List (List UInt8 × JBaseObj Float)} {p : List UInt8},
    readMembers stof fuel objs p = .outOfRange → ∃ ps rest, Blocked stof .members p ps rest

theorem Throws.reader {fuel : Nat} (ih : Throws stof fuel) {p : List UInt8}
    (h : reader stof (fuel + 1) p = .outOfRange) : ∃ ps rest, Blocked stof .value p ps rest := by
  obtain ⟨gap, hgap⟩ := exists_gap p
  rw [JsonReader.reader] at h
  split at h
  · rw [peek_cases ‹peek (skip p) = 91› (by decide)] at hgap
    unfold readArray at h
    split at h
    · cases h
    split at h
    · cases h
    · obtain ⟨ps, rest, hblocked⟩ := ih.items h
      rw [hgap]
      exact ⟨_, rest, hblocked.array gap⟩
  split at h
  · rw [peek_cases ‹peek (skip p) = 123› (by decide)] at hgap
    unfold readObj at h
    split at h
    · cases h
    split at h
    · cases h
    · obtain ⟨ps, rest, hblocked⟩ := ih.members h
      rw [hgap]
      exact ⟨_, rest, hblocked.obj gap⟩
  · obtain ⟨minus, ds, next, hds, hends, htext, hnone⟩ := readBase_outOfRange h
    rw [htext, ← List.append_assoc (sign minus)] at hgap
    exact ⟨[], p, rfl, trivial, trivial, .here, gap, minus, ds, next, hds, hends,
      (numberValue_eq_none stof hds next).mp hnone, hgap⟩

theorem Throws.readItems {fuel : Nat} (ih : Throws stof fuel) {objs : List (JBaseObj Float)}
    {p : List UInt8} (h : readItems stof (fuel + 1) objs p = .outOfRange) :
    ∃ ps rest, Blocked stof .items p ps rest := by
  rw [JsonReader.readItems] at h
  cases hv : JsonReader.reader stof fuel p with
  | obj value q =>
    simp only [hv] at h
    split at h
    · have hcomma := ‹peek (skip q) = 44›
      obtain ⟨gap, hgap⟩ := gap_of_peek hcomma (by decide)
      obtain ⟨qs, rest, hblocked⟩ := ih.items h
      obtain ⟨ps, hps⟩ := (sound fuel).value hv (ne_exponent_of_peek hcomma (by decide))
      rw [hgap] at hps
      exact ⟨_, rest, Blocked.items [(gap, .comma)] hps (.inr ⟨gap, rfl⟩) hblocked⟩
    split at h
    · cases h
    split at h
    · cases h
    · rw [readItems_skip] at h
      obtain ⟨qs, rest, hblocked⟩ := ih.items h
      obtain ⟨ps, hps⟩ := (sound fuel).value hv hblocked.startsValue.ne_exponent
      exact ⟨_, rest, Blocked.items [] hps (.inl rfl) hblocked⟩
  | outOfRange =>
    obtain ⟨ps, rest, hblocked⟩ := ih.value hv
    exact ⟨ps, rest, hblocked.item⟩
  | nullptr | unfinished =>
    rw [hv] at h
    cases h

theorem Throws.readMembers {fuel : Nat} (ih : Throws stof fuel)
    {objs : List (List UInt8 × JBaseObj Float)} {p : List UInt8}
    (h : readMembers stof (fuel + 1) objs p = .outOfRange) :
    ∃ ps rest, Blocked stof .members p ps rest := by
  obtain ⟨head, hhead⟩ := exists_gap p
  rw [JsonReader.readMembers] at h
  split at h
  · cases h
  rename_i key colon hstr
  obtain ⟨hkeyText, hkey⟩ := readStr_eq_some hstr
  split at h
  · cases h
  rename_i hne
  rw [hkeyText, peek_cases (not_not.mp hne) (by decide)] at hhead
  cases hv : JsonReader.reader stof fuel (go colon 1) with
  | obj value q =>
    simp only [hv] at h
    rw [hhead]
    split at h
    · have hcomma := ‹peek (skip q) = 44›
      obtain ⟨gap, hgap⟩ := gap_of_peek hcomma (by decide)
      obtain ⟨qs, rest, hblocked⟩ := ih.members h
      obtain ⟨ps, hps⟩ := (sound fuel).value hv (ne_exponent_of_peek hcomma (by decide))
      rw [hgap] at hps
      exact ⟨_, rest, Blocked.members hkey [(gap, .comma)] hps (.inr ⟨gap, rfl⟩) hblocked head⟩
    split at h
    · cases h
    split at h
    · cases h
    · rw [readMembers_skip] at h
      obtain ⟨qs, rest, hblocked⟩ := ih.members h
      obtain ⟨ps, hps⟩ := (sound fuel).value hv hblocked.startsValue.ne_exponent
      exact ⟨_, rest, Blocked.members hkey [] hps (.inl rfl) hblocked head⟩
  | outOfRange =>
    obtain ⟨ps, rest, hblocked⟩ := ih.value hv
    rw [hhead]
    exact ⟨_, rest, hblocked.member hkey head⟩
  | nullptr | unfinished =>
    simp only [hv] at h
    cases h

theorem throws (fuel : Nat) : Throws stof fuel := by
  induction fuel with
  | zero =>
    refine ⟨fun h => ?_, fun h => ?_, fun h => ?_⟩
    · rw [JsonReader.reader] at h
      cases h
    · rw [JsonReader.readItems] at h
      cases h
    · rw [JsonReader.readMembers] at h
      cases h
  | succ fuel ih => exact ⟨ih.reader, ih.readItems, ih.readMembers⟩

/-! ## 4. And there it throws -/

variable (stof) in
/-- The read does not come to an end, or it throws. -/
def Stops (fuel : Nat) : Place → List UInt8 → Prop
  | .value, p => reader stof fuel p = .unfinished ∨ reader stof fuel p = .outOfRange
  | .items, p => ∀ objs : List (JBaseObj Float),
      readItems stof fuel objs p = .unfinished ∨ readItems stof fuel objs p = .outOfRange
  | .members, p => ∀ objs : List (List UInt8 × JBaseObj Float),
      readMembers stof fuel objs p = .unfinished ∨ readMembers stof fuel objs p = .outOfRange

theorem stops_of_succ {place : Place} {p : List UInt8} (h : ∀ fuel, Stops stof (fuel + 1) place p)
    (fuel : Nat) : Stops stof fuel place p := by
  cases fuel with
  | zero =>
    cases place with
    | value => exact .inl (by rw [reader])
    | items => exact fun _ => .inl (by rw [readItems])
    | members => exact fun _ => .inl (by rw [readMembers])
  | succ fuel => exact h fuel

theorem UnfitText.stops {p : List UInt8} (h : UnfitText stof p) (fuel : Nat) :
    Stops stof (fuel + 1) .value p := by
  obtain ⟨gap, minus, ds, next, hds, hends, hunfit, rfl⟩ := h
  have hskip := skip_piece gap (.number minus ds hds) next
  have hne := (Token.begins (.number minus ds hds) next).ne_open ⟨nofun, nofun⟩
  have hnone := (numberValue_eq_none stof hds next).mpr hunfit
  right
  rw [reader]
  simp only [Token.text] at hskip hne
  rw [hskip, if_neg hne.1, if_neg hne.2, List.append_assoc, readBase_number stof hds hends, hnone]

section
variable {fuel : Nat} {p q : List UInt8} {t : JBaseObj Float} {key : List UInt8}

theorem stops_array (hstart : StartsValue p) (h : Stops stof fuel .items p) (gap : Gap) :
    Stops stof (fuel + 1) .value (gap.1 ++ 91 :: p) := by
  obtain ⟨h0, h93, -⟩ := hstart.peek_ne
  rw [Stops, reader, skip_char gap (by decide), if_pos (peek_cons 91 p), go_one, readArray,
    if_neg h93, if_neg h0]
  exact h []

theorem stops_obj (hstart : StartsValue p) (h : Stops stof fuel .members p) (gap : Gap) :
    Stops stof (fuel + 1) .value (gap.1 ++ 123 :: p) := by
  obtain ⟨h0, -, h125⟩ := hstart.peek_ne
  rw [Stops, reader, skip_char gap (by decide), if_neg (by rw [peek_cons]; decide),
    if_pos (peek_cons 123 p), go_one, readObj, if_neg h125, if_neg h0]
  exact h []

theorem stops_item (h : Stops stof fuel .value p) : Stops stof (fuel + 1) .items p := by
  intro objs
  rcases h with hfuel | hthrows
  · rw [readItems, hfuel]
    exact .inl rfl
  · rw [readItems, hthrows]
    exact .inr rfl

theorem stops_items {sep : List Piece} (hsep : sep = [] ∨ ∃ gap, sep = [(gap, .comma)])
    (hstart : StartsValue q) (h : Reads stof fuel (.value t) p (render sep q))
    (hs : Stops stof fuel .items q) : Stops stof (fuel + 1) .items p := by
  intro objs
  rcases h with hfuel | hvalue
  · rw [readItems, hfuel]
    exact .inl rfl
  · rw [readItems_next hsep hstart hvalue]
    exact hs _

theorem stops_member (hkey : legible key = true) (h : Stops stof fuel .value p) (head : Gap) :
    Stops stof (fuel + 1) .members (head.1 ++ (JBaseObj.quoted key ++ 58 :: p)) := by
  intro objs
  have hstr := readStr_key hkey head p
  rcases h with hfuel | hthrows
  · rw [readMembers, hstr]
    simp only [peek_cons, go_one, ne_eq, not_true_eq_false, if_false, hfuel]
    exact .inl trivial
  · rw [readMembers, hstr]
    simp only [peek_cons, go_one, ne_eq, not_true_eq_false, if_false, hthrows]
    exact .inr trivial

theorem stops_members (hkey : legible key = true) {sep : List Piece}
    (hsep : sep = [] ∨ ∃ gap, sep = [(gap, .comma)]) (hstart : StartsValue q)
    (h : Reads stof fuel (.value t) p (render sep q)) (hs : Stops stof fuel .members q)
    (head : Gap) : Stops stof (fuel + 1) .members (head.1 ++ (JBaseObj.quoted key ++ 58 :: p)) := by
  intro objs
  have hstr := readStr_key hkey head p
  rcases h with hfuel | hvalue
  · rw [readMembers, hstr]
    simp only [peek_cons, go_one, ne_eq, not_true_eq_false, if_false, hfuel]
    exact .inl trivial
  · rw [readMembers_next hsep hstart hstr hvalue]
    exact hs _

end

theorem Leads.stops {place : Place} {toks : List Token} (h : Leads stof place toks)
    {ps : List Piece} (hps : tokens ps = toks) {rest : List UInt8}
    (hends : Each Piece.Ends ps rest) (hsnug : Each Piece.Snug ps rest)
    (hunfit : UnfitText stof rest) (fuel : Nat) : Stops stof fuel place (render ps rest) := by
  induction h generalizing ps fuel with
  | here =>
    rw [List.map_eq_nil_iff.mp hps]
    exact stops_of_succ hunfit.stops fuel
  | array h ih =>
    refine stops_of_succ (fun fuel => ?_) fuel
    obtain ⟨gap, qs, rfl, hqs⟩ := tokens_eq_cons hps
    exact stops_array (h.startsValue hqs hunfit) (ih hqs hends.2 hsnug.2 fuel) gap
  | obj h ih =>
    refine stops_of_succ (fun fuel => ?_) fuel
    obtain ⟨gap, qs, rfl, hqs⟩ := tokens_eq_cons hps
    exact stops_obj (h.startsValue hqs hunfit) (ih hqs hends.2 hsnug.2 fuel) gap
  | item h ih => exact stops_of_succ (fun fuel => stops_item (ih hps hends hsnug fuel)) fuel
  | items h hsep hs ihs =>
    refine stops_of_succ (fun fuel => ?_) fuel
    obtain ⟨qs, tail, rfl, hqs, htail⟩ := tokens_eq_append hps
    obtain ⟨sep, rs, rfl, hsepToks, hrs⟩ := tokens_eq_append htail
    obtain ⟨hends, hendsTail⟩ := each_append.mp hends
    obtain ⟨hsnug, hsnugTail⟩ := each_append.mp hsnug
    have hvalue := h.reads hqs hends hsnug fuel
    have hitems := ihs hrs (each_append.mp hendsTail).2 (each_append.mp hsnugTail).2 fuel
    rw [render_append, render_append]
    rw [render_append] at hvalue
    exact stops_items (tokens_eq_separator hsepToks hsep) (hs.startsValue hrs hunfit) hvalue hitems
  | member hkey h ih =>
    refine stops_of_succ (fun fuel => ?_) fuel
    obtain ⟨gap, qs, rfl, hmember⟩ := tokens_eq_cons hps
    obtain ⟨gap', qs, rfl, hqs⟩ := tokens_eq_cons hmember
    have hgap' : gap'.1 = [] := hsnug.2.1
    have hvalue := ih hqs hends.2.2 hsnug.2.2 fuel
    show Stops stof (fuel + 1) _ (gap.1 ++ (_ ++ (gap'.1 ++ 58 :: render qs rest)))
    rw [hgap']
    exact stops_member hkey hvalue gap
  | members hkey h hsep hs ihs =>
    refine stops_of_succ (fun fuel => ?_) fuel
    obtain ⟨gap, qs, rfl, hmember⟩ := tokens_eq_cons hps
    obtain ⟨gap', qs, rfl, hvalues⟩ := tokens_eq_cons hmember
    have hgap' : gap'.1 = [] := hsnug.2.1
    obtain ⟨qs, tail, rfl, hqs, htail⟩ := tokens_eq_append hvalues
    obtain ⟨sep, rs, rfl, hsepToks, hrs⟩ := tokens_eq_append htail
    obtain ⟨hends, hendsTail⟩ := each_append.mp hends.2.2
    obtain ⟨hsnug, hsnugTail⟩ := each_append.mp hsnug.2.2
    have hvalue := h.reads hqs hends hsnug fuel
    have hmembers := ihs hrs (each_append.mp hendsTail).2 (each_append.mp hsnugTail).2 fuel
    show Stops stof (fuel + 1) _
      (gap.1 ++ (_ ++ (gap'.1 ++ 58 :: render (qs ++ (sep ++ rs)) rest)))
    rw [hgap', render_append, render_append]
    rw [render_append] at hvalue
    exact stops_members hkey (tokens_eq_separator hsepToks hsep) (hs.startsValue hrs hunfit) hvalue
      hmembers gap

theorem parser_throws_iff (text : List UInt8) :
    parser stof text = .outOfRange ↔ ∃ ps rest, Blocked stof .value text ps rest := by
  constructor
  · intro h
    rw [parser] at h
    cases hv : reader stof (2 * text.length + 1) text with
    | obj value rest =>
      simp only [hv] at h
      split at h <;> cases h
    | outOfRange => exact (throws _).value hv
    | nullptr | unfinished =>
      rw [hv] at h
      cases h
  · rintro ⟨ps, rest, h⟩
    have hstops := h.leads.stops rfl h.ends h.snug h.unfit (2 * text.length + 1)
    rw [← h.text_eq] at hstops
    rcases hstops with hfuel | hthrows
    · exact absurd hfuel ((finishes stof _).value text le_rfl)
    · rw [parser, hthrows]

/-- The parser gives a tree or `nullptr` exactly if it comes to no numeral that does not fit. -/
theorem parser_returns_iff (text : List UInt8) :
    ((∃ t rest, parser stof text = .obj t rest) ∨ parser stof text = .nullptr) ↔
      ¬ ∃ ps rest, Blocked stof .value text ps rest := by
  rw [← parser_throws_iff]
  have hfinished := parser_ne_unfinished stof text
  cases hparser : parser stof text with
  | obj value rest => exact iff_of_true (.inl ⟨value, rest, rfl⟩) nofun
  | nullptr => exact iff_of_true (.inr rfl) nofun
  | outOfRange =>
    refine iff_of_false ?_ (not_not.mpr rfl)
    rintro (⟨t, rest, h⟩ | h) <;> cases h
  | unfinished => exact absurd hparser hfinished

/-- `99999999999` gives neither a tree nor `nullptr`. -/
theorem parser_throws_large :
    ¬ ((∃ t rest, (parser (fun _ => none) [57, 57, 57, 57, 57, 57, 57, 57, 57, 57, 57] :
          JsonRead Unit) = .obj t rest) ∨
        (parser (fun _ => none) [57, 57, 57, 57, 57, 57, 57, 57, 57, 57, 57] : JsonRead Unit) =
          .nullptr) := by
  rintro (⟨t, rest, h⟩ | h) <;> cases h

end JsonText

end LuaServer
