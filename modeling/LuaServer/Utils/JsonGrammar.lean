import Mathlib.Data.List.DropRight
import LuaServer.Utils.JsonTokens

/-!
# JsonGrammar — the rows of tokens that the reader accepts

`Derives` is the grammar of JSON on tokens, and in its lenient form the grammar of the reader: there
a comma may be missing between two elements or members, and a string may have a minus and a point in
front.  The reader accepts a text exactly if its tokens are derived and no gap stands where the
reader looks for a character without passing over blanks.
-/

open Reasoning

namespace LuaServer

namespace JsonText

open JsonReader

variable {Float : Type} (stof : List UInt8 → Option Float)

/-! ## 1. The grammar -/

/-- The value of a number and what follows it; none is the exception of `stoi` or `stof`. -/
def numberValue (minus : Bool) (ds next : List UInt8) : Option (JBaseObj Float) :=
  if 46 ∈ ds then (stof (sign minus ++ ds ++ exponent next)).map .float
  else (stoi (sign minus ++ ds)).map .int

/-- A token that is a value. -/
inductive Scalar : Token → JBaseObj Float → Prop
  | null : Scalar .null .null
  | bool (bv : Bool) : Scalar (.bool bv) (.bool bv)
  | number {minus : Bool} {ds : List UInt8} (h : isNumeral ds = true) {v : JBaseObj Float}
      (hv : numberValue stof minus ds [] = some v) : Scalar (.number minus ds h) v
  | str (minus point : Bool) {sv : List UInt8} (h : legible sv = true) :
      Scalar (.str minus point sv h) (.str sv)

/-- A string with nothing in front of it, or another token. -/
def Token.clean : Token → Bool
  | str minus point _ _ => !minus && !point
  | _ => true

/-- What stands between two elements or members. -/
def Separator (lenient : Bool) (sep : List Token) : Prop :=
  sep = [.comma] ∨ lenient = true ∧ sep = []

/-- A value, the elements of an array, or the members of an object in the order of the text. -/
inductive Phrase (Float : Type)
  | value (t : JBaseObj Float)
  | items (ts : List (JBaseObj Float))
  | members (ms : List (List UInt8 × JBaseObj Float))

/-- The map that the members make; of those with the same key the last one counts. -/
def assignAll (maps ms : List (List UInt8 × JBaseObj Float)) : List (List UInt8 × JBaseObj Float) :=
  ms.foldl (fun maps m => assign m.1 m.2 maps) maps

inductive Derives (lenient : Bool) : Phrase Float → List Token → Prop
  | scalar {tok : Token} {t : JBaseObj Float} (h : Scalar stof tok t)
      (hclean : lenient = true ∨ tok.clean = true) : Derives lenient (.value t) [tok]
  | emptyArray : Derives lenient (.value (.array [])) [.leftBracket, .rightBracket]
  | array {ts : List (JBaseObj Float)} {toks : List Token} (h : Derives lenient (.items ts) toks) :
      Derives lenient (.value (.array ts)) (.leftBracket :: (toks ++ [.rightBracket]))
  | emptyObj : Derives lenient (.value (.obj [])) [.leftBrace, .rightBrace]
  | obj {ms : List (List UInt8 × JBaseObj Float)} {toks : List Token}
      (h : Derives lenient (.members ms) toks) :
      Derives lenient (.value (.obj (assignAll [] ms))) (.leftBrace :: (toks ++ [.rightBrace]))
  | item {t : JBaseObj Float} {toks : List Token} (h : Derives lenient (.value t) toks) :
      Derives lenient (.items [t]) toks
  | items {t : JBaseObj Float} {ts : List (JBaseObj Float)} {toks sep toks' : List Token}
      (h : Derives lenient (.value t) toks) (hsep : Separator lenient sep)
      (hs : Derives lenient (.items ts) toks') :
      Derives lenient (.items (t :: ts)) (toks ++ (sep ++ toks'))
  | member {key : List UInt8} (hkey : legible key = true) {t : JBaseObj Float} {toks : List Token}
      (h : Derives lenient (.value t) toks) :
      Derives lenient (.members [(key, t)]) (.str false false key hkey :: .colon :: toks)
  | members {key : List UInt8} (hkey : legible key = true) {t : JBaseObj Float}
      {ms : List (List UInt8 × JBaseObj Float)} {toks sep toks' : List Token}
      (h : Derives lenient (.value t) toks) (hsep : Separator lenient sep)
      (hs : Derives lenient (.members ms) toks') :
      Derives lenient (.members ((key, t) :: ms))
        (.str false false key hkey :: .colon :: (toks ++ (sep ++ toks')))

/-- Where the reader does not pass over blanks: behind an opening bracket or brace, if the closing
one follows, and in front of a colon. -/
def Piece.Snug (p : Piece) (next : List UInt8) : Prop :=
  match p.2 with
  | .leftBracket => peek (skip next) = 93 → peek next = 93
  | .leftBrace => peek (skip next) = 125 → peek next = 125
  | .colon => p.1.1 = []
  | _ => True

instance (p : Piece) (next : List UInt8) : Decidable (p.Snug next) :=
  match p with
  | (_, .leftBracket) => inferInstanceAs (Decidable (peek (skip next) = 93 → peek next = 93))
  | (_, .leftBrace) => inferInstanceAs (Decidable (peek (skip next) = 125 → peek next = 125))
  | (gap, .colon) => inferInstanceAs (Decidable (gap.1 = []))
  | (_, .rightBracket) | (_, .rightBrace) | (_, .comma) | (_, .null) | (_, .bool _)
  | (_, .number _ _ _) | (_, .str _ _ _ _) => isTrue trivial

/-! ## 2. Tokens of the reader -/

theorem stoi_append {minus : Bool} {ds next : List UInt8} (hds : ∀ c ∈ ds, isDigit c = true)
    (hne : ds ≠ []) (hnext : isDigit (peek next) = false) :
    stoi (sign minus ++ (ds ++ next)) = stoi (sign minus ++ ds) := by
  have htake : (ds ++ next).takeWhile isDigit = ds := by
    rw [List.takeWhile_append_of_pos hds]
    cases next with
    | nil => simp
    | cons c next =>
      rw [List.takeWhile_cons_of_neg, List.append_nil]
      rw [show isDigit c = false from hnext]
      exact Bool.false_ne_true
  have htake' : ds.takeWhile isDigit = ds := List.takeWhile_eq_self_iff.mpr hds
  cases minus with
  | true =>
    show stoi (45 :: (ds ++ next)) = stoi (45 :: ds)
    simp only [stoi, peek_cons, go_one, if_true, htake, htake']
  | false =>
    obtain ⟨c, cs, rfl⟩ := List.exists_cons_of_ne_nil hne
    have hc : c ≠ 45 := by
      rintro rfl
      exact absurd (hds 45 List.mem_cons_self) (by decide)
    show stoi (c :: (cs ++ next)) = stoi (c :: cs)
    rw [List.cons_append] at htake
    simp only [stoi, peek_cons, if_neg hc, htake, htake']

theorem readBase_scan {minus : Bool} {q : List UInt8} (hq : IsScanStart (peek q)) :
    readBase stof (sign minus ++ q) =
      match scanNumber q false 0 with
      | none => .nullptr
      | some (isfloat, numpos, str) =>
        if numpos ≠ 0 then JsonReader.number stof isfloat (sign minus ++ q) str
        else
          match readStr str with
          | some (s, rest) => .obj (.str s) rest
          | none => .nullptr := by
  cases minus with
  | true => exact readBase_cons stof (by decide) (by decide) (by decide) q
  | false =>
    have hne : ∀ d : UInt8, d ≠ 46 → d ≠ 34 → isDigit d = false → peek q ≠ d :=
      fun d h46 h34 hd => hq.ne h46 h34 hd
    cases q with
    | nil => exact absurd hq (by unfold IsScanStart; decide)
    | cons c q =>
      have hsign : peek (c :: q) ≠ 45 := hne 45 (by decide) (by decide) (by decide)
      have hread := readBase_cons stof (hne 110 (by decide) (by decide) (by decide))
        (hne 102 (by decide) (by decide) (by decide)) (hne 116 (by decide) (by decide) (by decide)) q
      rw [if_neg hsign] at hread
      exact hread

theorem readBase_number {minus : Bool} {ds next : List UInt8} (h : isNumeral ds = true)
    (hnext : ScanEnds next) :
    readBase stof (sign minus ++ (ds ++ next)) =
      match numberValue stof minus ds next with
      | some v => .obj v next
      | none => .outOfRange := by
  obtain ⟨hall, hpoint, hdigit⟩ := isNumeral_iff.mp h
  have hstart : IsScanStart (peek (ds ++ next)) := (isNumeral_peek h next).imp_right .inl
  rw [readBase_scan stof hstart, scanNumber_numeral h hnext]
  simp only [ne_eq, countP_pos_of_isNumeral h, not_false_eq_true, if_true, JsonReader.number,
    numberValue]
  by_cases hfloat : 46 ∈ ds
  · have htake : (sign minus ++ (ds ++ next)).take
        ((sign minus ++ (ds ++ next)).length - next.length) = sign minus ++ ds := by
      rw [← List.append_assoc, List.length_append, Nat.add_sub_cancel, List.take_left]
    simp only [hfloat, decide_true, if_true, htake]
    cases stof (sign minus ++ ds ++ exponent next) <;> rfl
  · have hdigits : ∀ c ∈ ds, isDigit c = true := by
      intro c hc
      rcases hall c hc with rfl | hc'
      · exact absurd hc hfloat
      · exact hc'
    have hne : ds ≠ [] := List.ne_nil_of_mem hdigit.choose_spec.1
    simp only [hfloat, decide_false, Bool.false_eq_true, if_false, stoi_append hdigits hne hnext.1]
    cases stoi (sign minus ++ ds) <;> rfl

theorem readBase_quoted {minus point : Bool} {sv : List UInt8} (h : legible sv = true)
    (next : List UInt8) :
    readBase stof (sign minus ++ (pointText point ++ (JBaseObj.quoted sv ++ next))) =
      .obj (.str sv) next := by
  have hstart := isScanStart_pointText point sv next
  have hread : readStr (JBaseObj.quoted sv ++ next) = some (sv, next) := by
    rw [readStr_quoted (legible_iff.mp h).2.1, if_pos h]
  rw [List.append_assoc] at hstart
  rw [readBase_scan stof hstart, scanNumber_quoted]
  simp only [ne_eq, not_true_eq_false, if_false, hread]

/-- Behind a number there is no exponent. -/
theorem exponent_eq_nil {next : List UInt8} (h : peek next ≠ 101 ∧ peek next ≠ 69) :
    exponent next = [] := by
  cases next with
  | nil => rfl
  | cons c next => exact if_neg (not_or.mpr h)

theorem numberValue_eq {minus : Bool} {ds next : List UInt8}
    (h : peek next ≠ 101 ∧ peek next ≠ 69) :
    numberValue stof minus ds next = numberValue stof minus ds [] := by
  rw [numberValue, exponent_eq_nil h, numberValue, exponent]

variable {stof}

theorem Scalar.readBase {tok : Token} {t : JBaseObj Float} (h : Scalar stof tok t)
    {next : List UInt8} (hends : tok.Ends next) :
    JsonReader.readBase stof (tok.text ++ next) = .obj t next := by
  cases h with
  | null => exact (readBase_word stof next).1
  | bool bv =>
    cases bv
    · exact (readBase_word stof next).2.1
    · exact (readBase_word stof next).2.2
  | @number minus ds h v hv =>
    show JsonReader.readBase stof (sign minus ++ ds ++ next) = _
    rw [List.append_assoc, readBase_number stof h ⟨hends.1, hends.2.1⟩,
      numberValue_eq stof hends.2.2, hv]
  | @str minus point sv h =>
    show JsonReader.readBase stof (sign minus ++ (pointText point ++ JBaseObj.quoted sv) ++ next) = _
    rw [List.append_assoc, List.append_assoc, readBase_quoted stof h]

/-! ## 3. What the reader takes is derived -/

theorem exists_gap (p : List UInt8) : ∃ gap : Gap, p = gap.1 ++ skip p := by
  refine ⟨⟨p.takeWhile fun c => c ≠ 0 && c ≤ 32, ?_⟩, (List.takeWhile_append_dropWhile).symm⟩
  intro c hc
  have hblank := List.mem_takeWhile_imp (p := fun c : UInt8 => c ≠ 0 && c ≤ 32) hc
  simp only [ne_eq, Bool.and_eq_true, decide_eq_true_eq, decide_not, Bool.not_eq_true'] at hblank
  exact ⟨UInt8.pos_iff_ne_zero.mpr (by simpa using hblank.1), hblank.2⟩

theorem peek_cases {p : List UInt8} {c : UInt8} (h : peek p = c) (hc : c ≠ 0) : p = c :: go p 1 := by
  cases p with
  | nil => exact absurd h.symm hc
  | cons d p => exact congrArg (· :: p) h

/-- Without a digit the loop passes over a point at most. -/
theorem eq_pointText {ds : List UInt8} (hall : ∀ c ∈ ds, c = 46 ∨ isDigit c = true)
    (hpoint : ds.count 46 ≤ 1) (hnone : ds.countP isDigit = 0) :
    ds = pointText (decide (46 ∈ ds)) := by
  have hpoints : ∀ c ∈ ds, c = 46 := by
    intro c hc
    exact (hall c hc).resolve_right fun h => List.countP_eq_zero.mp hnone c hc h
  match ds, hpoint, hpoints with
  | [], _, _ => rfl
  | [c], _, hpoints =>
    obtain rfl := hpoints c List.mem_cons_self
    rfl
  | c :: d :: ds, hpoint, hpoints =>
    obtain rfl := hpoints c List.mem_cons_self
    obtain rfl := hpoints d (List.mem_cons_of_mem _ List.mem_cons_self)
    rw [List.count_cons_self, List.count_cons_self] at hpoint
    omega

/-- `readBase` refuses, or finds a number, or finds another scalar. -/
theorem readBase_cases (p : List UInt8) :
    readBase stof p = .nullptr ∨
      (∃ minus ds next, isNumeral ds = true ∧ ScanEnds next ∧ p = sign minus ++ (ds ++ next)) ∨
      ∃ (tok : Token) (t : JBaseObj Float) (next : List UInt8), p = tok.text ++ next ∧
        (∀ next, tok.Ends next) ∧ Scalar stof tok t ∧ readBase stof p = .obj t next := by
  have hword : ∀ w : List UInt8, w <+: p → p = w ++ go p w.length := by
    rintro w ⟨q, rfl⟩
    rw [go, List.drop_left]
  rw [readBase]
  by_cases hnull : ascii "null" <+: p
  · exact .inr (.inr ⟨.null, .null, _, hword _ hnull, fun _ => trivial, .null, if_pos hnull⟩)
  rw [if_neg hnull]
  by_cases hfalse : ascii "false" <+: p
  · exact .inr (.inr ⟨.bool false, .bool false, _, hword _ hfalse, fun _ => trivial, .bool false,
      if_pos hfalse⟩)
  rw [if_neg hfalse]
  by_cases htrue : ascii "true" <+: p
  · exact .inr (.inr ⟨.bool true, .bool true, _, hword _ htrue, fun _ => trivial, .bool true,
      if_pos htrue⟩)
  rw [if_neg htrue]
  obtain ⟨minus, q, hq, hp⟩ : ∃ minus q, (if peek p = 45 then go p 1 else p) = q ∧
      p = sign minus ++ q := by
    by_cases hminus : peek p = 45
    · exact ⟨true, go p 1, if_pos hminus, peek_cases hminus (by decide)⟩
    · exact ⟨false, p, if_neg hminus, rfl⟩
  rw [hq]
  cases hscan : scanNumber q false 0 with
  | none => exact .inl rfl
  | some r =>
    obtain ⟨isfloat, numpos, str⟩ := r
    obtain ⟨ds, rfl, hall, hpoint, hfloat, hnum, hends⟩ := scanNumber_eq_some hscan
    rw [Nat.zero_add] at hnum
    by_cases hzero : numpos = 0
    · -- no digit, so that a string must follow
      have hds := eq_pointText hall (by simpa using hpoint) (hnum.symm.trans hzero)
      simp only [hzero, ne_eq, not_true_eq_false, if_false]
      cases hstr : readStr str with
      | none => exact .inl rfl
      | some r =>
        obtain ⟨sv, rest⟩ := r
        obtain ⟨rfl, hsv⟩ := readStr_eq_some hstr
        refine .inr (.inr ⟨.str minus (decide (46 ∈ ds)) sv hsv, .str sv, rest, ?_,
          fun _ => trivial, .str _ _ hsv, rfl⟩)
        rw [hp, Token.text, ← hds, List.append_assoc, List.append_assoc]
    · refine .inr (.inl ⟨minus, ds, str, isNumeral_iff.mpr ⟨hall, by simpa using hpoint, ?_⟩, hends,
        hp⟩)
      exact List.countP_pos_iff.mp (Nat.pos_of_ne_zero (hnum ▸ hzero))

theorem readBase_obj_token {p rest : List UInt8} {t : JBaseObj Float}
    (h : readBase stof p = .obj t rest) (hexp : peek rest ≠ 101 ∧ peek rest ≠ 69) :
    ∃ tok : Token, p = tok.text ++ rest ∧ tok.Ends rest ∧ Scalar stof tok t := by
  rcases @readBase_cases _ stof p with hnull | ⟨minus, ds, next, hds, hends, rfl⟩ |
    ⟨tok, t', next, hp, hends, hscalar, hread⟩
  · rw [hnull] at h
    cases h
  · rw [readBase_number stof hds hends] at h
    cases hv : numberValue stof minus ds next with
    | none =>
      rw [hv] at h
      cases h
    | some v =>
      rw [hv] at h
      cases h
      rw [numberValue_eq stof hexp] at hv
      refine ⟨.number minus ds hds, (List.append_assoc _ _ _).symm, ⟨hends.1, hends.2, hexp⟩,
        .number hds hv⟩
  · rw [hread] at h
    cases h
    exact ⟨tok, hp, hends rest, hscalar⟩

/-- The exception of `stoi` or `stof`. -/
theorem readBase_outOfRange {p : List UInt8} (h : readBase stof p = .outOfRange) :
    ∃ minus ds next, isNumeral ds = true ∧ ScanEnds next ∧ p = sign minus ++ (ds ++ next) ∧
      numberValue stof minus ds next = none := by
  rcases @readBase_cases _ stof p with hnull | ⟨minus, ds, next, hds, hends, rfl⟩ |
    ⟨tok, t', next, hp, hends, hscalar, hread⟩
  · rw [hnull] at h
    cases h
  · rw [readBase_number stof hds hends] at h
    refine ⟨minus, ds, next, hds, hends, rfl, ?_⟩
    cases hv : numberValue stof minus ds next with
    | none => rfl
    | some v =>
      rw [hv] at h
      cases h
  · rw [hread] at h
    cases h

/-! ## 4. Phrases at the beginning of a text -/

/-- A value can begin with the token. -/
def Token.opens : Token → Bool
  | leftBracket | leftBrace | null | bool _ | number _ _ _ | str _ _ _ _ => true
  | rightBracket | rightBrace | comma | colon => false

/-- A value can end with the token. -/
def Token.closes : Token → Bool
  | rightBracket | rightBrace | null | bool _ | number _ _ _ | str _ _ _ _ => true
  | leftBracket | leftBrace | comma | colon => false

theorem Scalar.opens {tok : Token} {t : JBaseObj Float} (h : Scalar stof tok t) :
    tok.opens = true := by
  cases h <;> rfl

theorem Derives.opens {lenient : Bool} {phrase : Phrase Float} {toks : List Token}
    (h : Derives stof lenient phrase toks) : ∃ tok rest, toks = tok :: rest ∧ tok.opens = true := by
  induction h with
  | scalar h _ => exact ⟨_, _, rfl, h.opens⟩
  | emptyArray | array | emptyObj | obj | member | members => exact ⟨_, _, rfl, rfl⟩
  | item _ ih => exact ih
  | items _ _ _ ih _ =>
    obtain ⟨tok, rest, rfl, htok⟩ := ih
    exact ⟨tok, _, rfl, htok⟩

/-- No value begins like one of the other tokens. -/
theorem Token.Begins.ne_of_opens {tok : Token} {c : UInt8} (h : tok.Begins c)
    (htok : tok.opens = true) : c ≠ 44 ∧ c ≠ 58 ∧ c ≠ 93 ∧ c ≠ 125 := by
  cases h
  case number hc | str hc =>
    rcases hc with rfl | hc
    · decide
    · exact ⟨hc.ne (by decide) (by decide) (by decide), hc.ne (by decide) (by decide) (by decide),
        hc.ne (by decide) (by decide) (by decide), hc.ne (by decide) (by decide) (by decide)⟩
  case rightBracket | rightBrace | comma | colon => cases htok
  all_goals decide

theorem skip_skip (p : List UInt8) : skip (skip p) = skip p :=
  List.dropWhile_idempotent (p := fun c : UInt8 => c ≠ 0 && c ≤ 32) p

theorem peek_skip (p : List UInt8) : peek p = peek (skip p) ∨ 0 < peek p ∧ peek p ≤ 32 := by
  obtain ⟨gap, hgap⟩ := exists_gap p
  have hpeek := peek_gap gap (skip p)
  rwa [← hgap] at hpeek

theorem ne_of_blank {c d : UInt8} (h : 0 < c ∧ c ≤ 32) (hd : 32 < d ∨ d = 0) : c ≠ d := by
  rintro rfl
  rcases hd with hd | rfl
  · exact absurd h.2 (UInt8.not_le.mpr hd)
  · exact absurd h.1 (by decide)

/-- Behind a gap there is a token that opens a value. -/
def StartsValue (p : List UInt8) : Prop :=
  ∃ tok : Token, tok.opens = true ∧ tok.Begins (peek (skip p))

theorem StartsValue.ne {p : List UInt8} (h : StartsValue p) :
    peek (skip p) ≠ 0 ∧ peek (skip p) ≠ 44 ∧ peek (skip p) ≠ 93 ∧ peek (skip p) ≠ 125 := by
  obtain ⟨tok, hopens, hbegins⟩ := h
  obtain ⟨h44, -, h93, h125⟩ := hbegins.ne_of_opens hopens
  refine ⟨?_, h44, h93, h125⟩
  intro hzero
  have hlt := hbegins.lt
  rw [hzero] at hlt
  exact absurd hlt (by decide)

theorem StartsValue.peek_ne {p : List UInt8} (h : StartsValue p) :
    peek p ≠ 0 ∧ peek p ≠ 93 ∧ peek p ≠ 125 := by
  rcases peek_skip p with hpeek | hblank
  · rw [hpeek]
    exact ⟨h.ne.1, h.ne.2.2⟩
  · exact ⟨ne_of_blank hblank (.inr rfl), ne_of_blank hblank (.inl (by decide)),
      ne_of_blank hblank (.inl (by decide))⟩

theorem ne_exponent_of_blank {c : UInt8} (h : 0 < c ∧ c ≤ 32) : c ≠ 101 ∧ c ≠ 69 :=
  ⟨ne_of_blank h (.inl (by decide)), ne_of_blank h (.inl (by decide))⟩

theorem StartsValue.ne_exponent {p : List UInt8} (h : StartsValue p) :
    peek p ≠ 101 ∧ peek p ≠ 69 := by
  obtain ⟨tok, -, hbegins⟩ := h
  rcases peek_skip p with hpeek | hblank
  · rw [hpeek]
    exact hbegins.ne_exponent
  · exact ne_exponent_of_blank hblank

theorem startsValue_piece {tok : Token} (htok : tok.opens = true) (gap : Gap) (next : List UInt8) :
    StartsValue (gap.1 ++ (tok.text ++ next)) := by
  refine ⟨tok, htok, ?_⟩
  rw [skip_piece]
  exact tok.begins next

theorem tokens_eq_cons {ps : List Piece} {tok : Token} {toks : List Token}
    (h : tokens ps = tok :: toks) : ∃ gap qs, ps = (gap, tok) :: qs ∧ tokens qs = toks := by
  obtain ⟨⟨gap, tok'⟩, qs, rfl, rfl, hqs⟩ := List.map_eq_cons_iff.mp h
  exact ⟨gap, qs, rfl, hqs⟩

theorem tokens_eq_singleton {ps : List Piece} {tok : Token} (h : tokens ps = [tok]) :
    ∃ gap, ps = [(gap, tok)] := by
  obtain ⟨gap, qs, rfl, hqs⟩ := tokens_eq_cons h
  rw [List.map_eq_nil_iff.mp hqs]
  exact ⟨gap, rfl⟩

theorem tokens_eq_append {ps : List Piece} {toks toks' : List Token}
    (h : tokens ps = toks ++ toks') :
    ∃ qs rs, ps = qs ++ rs ∧ tokens qs = toks ∧ tokens rs = toks' :=
  List.map_eq_append_iff.mp h

theorem Derives.startsValue {phrase : Phrase Float} {ps : List Piece} {toks : List Token}
    (h : Derives stof true phrase toks) (hps : tokens ps = toks) (rest : List UInt8) :
    StartsValue (render ps rest) := by
  obtain ⟨tok, toks', rfl, hopens⟩ := h.opens
  obtain ⟨gap, qs, rfl, -⟩ := tokens_eq_cons hps
  exact startsValue_piece hopens gap _

/-- Only a bracket or a brace begins like one. -/
theorem Token.Begins.ne_open {tok : Token} {c : UInt8} (h : tok.Begins c)
    (htok : tok ≠ .leftBracket ∧ tok ≠ .leftBrace) : c ≠ 91 ∧ c ≠ 123 := by
  cases h
  case number hc | str hc =>
    rcases hc with rfl | hc
    · decide
    · exact ⟨hc.ne (by decide) (by decide) (by decide), hc.ne (by decide) (by decide) (by decide)⟩
  case leftBracket => exact absurd rfl htok.1
  case leftBrace => exact absurd rfl htok.2
  all_goals decide

variable (stof) in
/-- The pieces `ps` stand at the beginning of the text `p` and are a phrase of the reader's. -/
structure Taken (phrase : Phrase Float) (p : List UInt8) (ps : List Piece) (rest : List UInt8) :
    Prop where
  text_eq : p = render ps rest
  ends : Each Piece.Ends ps rest
  snug : Each Piece.Snug ps rest
  derives : Derives stof true phrase (tokens ps)

section
variable {p q rest : List UInt8} {ps qs : List Piece} {gap gap' : Gap} {t : JBaseObj Float}
  {ts : List (JBaseObj Float)} {ms : List (List UInt8 × JBaseObj Float)} {phrase : Phrase Float}

theorem Taken.startsValue (h : Taken stof phrase p ps rest) : StartsValue p := by
  rw [h.text_eq]
  exact h.derives.startsValue rfl rest

theorem Taken.scalar {tok : Token} (hends : tok.Ends rest) (h : Scalar stof tok t) (gap : Gap) :
    Taken stof (.value t) (gap.1 ++ (tok.text ++ rest)) [(gap, tok)] rest := by
  refine ⟨rfl, ⟨hends, trivial⟩, ⟨?_, trivial⟩, .scalar h (.inl rfl)⟩
  cases h <;> trivial

theorem Taken.emptyArray (gap : Gap) (rest : List UInt8) :
    Taken stof (.value (.array [])) (gap.1 ++ 91 :: 93 :: rest)
      [(gap, .leftBracket), (noGap, .rightBracket)] rest :=
  ⟨rfl, ⟨trivial, trivial, trivial⟩, ⟨fun _ => rfl, trivial, trivial⟩, .emptyArray⟩

theorem Taken.emptyObj (gap : Gap) (rest : List UInt8) :
    Taken stof (.value (.obj [])) (gap.1 ++ 123 :: 125 :: rest)
      [(gap, .leftBrace), (noGap, .rightBrace)] rest :=
  ⟨rfl, ⟨trivial, trivial, trivial⟩, ⟨fun _ => rfl, trivial, trivial⟩, .emptyObj⟩

theorem Taken.array (h : Taken stof (.items ts) p ps (gap'.1 ++ 93 :: rest)) (gap : Gap) :
    Taken stof (.value (.array ts)) (gap.1 ++ 91 :: p)
      ((gap, .leftBracket) :: (ps ++ [(gap', .rightBracket)])) rest := by
  have htext : p = render (ps ++ [(gap', .rightBracket)]) rest := by
    rw [render_append]
    exact h.text_eq
  refine ⟨?_, ⟨trivial, each_append.mpr ⟨h.ends, trivial, trivial⟩⟩,
    ⟨?_, each_append.mpr ⟨h.snug, trivial, trivial⟩⟩, ?_⟩
  · rw [htext]
    rfl
  · intro hclose
    rw [← htext] at hclose
    exact absurd hclose h.startsValue.ne.2.2.1
  · rw [tokens_cons, tokens_append]
    exact .array h.derives

theorem Taken.obj (h : Taken stof (.members ms) p ps (gap'.1 ++ 125 :: rest)) (gap : Gap) :
    Taken stof (.value (.obj (assignAll [] ms))) (gap.1 ++ 123 :: p)
      ((gap, .leftBrace) :: (ps ++ [(gap', .rightBrace)])) rest := by
  have htext : p = render (ps ++ [(gap', .rightBrace)]) rest := by
    rw [render_append]
    exact h.text_eq
  refine ⟨?_, ⟨trivial, each_append.mpr ⟨h.ends, trivial, trivial⟩⟩,
    ⟨?_, each_append.mpr ⟨h.snug, trivial, trivial⟩⟩, ?_⟩
  · rw [htext]
    rfl
  · intro hclose
    rw [← htext] at hclose
    exact absurd hclose h.startsValue.ne.2.2.2
  · rw [tokens_cons, tokens_append]
    exact .obj h.derives

/-- The pieces of a value, of a separator and of what follows. -/
theorem Taken.append (sep : List Piece) (h : Taken stof (.value t) p ps (render sep q))
    (hsep : sep = [] ∨ ∃ gap, sep = [(gap, .comma)]) (htext : q = render qs rest)
    (hends : Each Piece.Ends qs rest) (hsnug : Each Piece.Snug qs rest) :
    p = render (ps ++ (sep ++ qs)) rest ∧ Each Piece.Ends (ps ++ (sep ++ qs)) rest ∧
      Each Piece.Snug (ps ++ (sep ++ qs)) rest ∧ Separator true (tokens sep) := by
  have hrest : render (sep ++ qs) rest = render sep q := by
    rw [render_append, ← htext]
  have heach : ∀ R : Piece → List UInt8 → Prop, (∀ gap next, R (gap, .comma) next) →
      Each R ps (render sep q) → Each R qs rest → Each R (ps ++ (sep ++ qs)) rest := by
    intro R hR hps hqs
    refine each_append.mpr ⟨hrest ▸ hps, each_append.mpr ⟨?_, hqs⟩⟩
    rcases hsep with rfl | ⟨gap, rfl⟩
    · trivial
    · exact ⟨hR _ _, trivial⟩
  refine ⟨?_, heach _ (fun _ _ => trivial) h.ends hends,
    heach _ (fun _ _ => trivial) h.snug hsnug, ?_⟩
  · rw [render_append, hrest]
    exact h.text_eq
  · rcases hsep with rfl | ⟨gap, rfl⟩
    · exact .inr ⟨rfl, rfl⟩
    · exact .inl rfl

theorem Taken.item (h : Taken stof (.value t) p ps rest) : Taken stof (.items [t]) p ps rest :=
  ⟨h.text_eq, h.ends, h.snug, .item h.derives⟩

theorem Taken.items (sep : List Piece) (h : Taken stof (.value t) p ps (render sep q))
    (hsep : sep = [] ∨ ∃ gap, sep = [(gap, .comma)]) (hq : Taken stof (.items ts) q qs rest) :
    Taken stof (.items (t :: ts)) p (ps ++ (sep ++ qs)) rest := by
  obtain ⟨htext, hends, hsnug, hseparator⟩ := h.append sep hsep hq.text_eq hq.ends hq.snug
  refine ⟨htext, hends, hsnug, ?_⟩
  rw [tokens_append, tokens_append]
  exact .items h.derives hseparator hq.derives

/-- A key and its colon in front of the pieces of a member. -/
def memberHead (gap : Gap) (key : List UInt8) (hkey : legible key = true) : List Piece :=
  [(gap, .str false false key hkey), (noGap, .colon)]

theorem render_memberHead {key : List UInt8} (hkey : legible key = true) :
    render (memberHead gap key hkey) p = gap.1 ++ (JBaseObj.quoted key ++ 58 :: p) := rfl

theorem tokens_memberHead {key : List UInt8} (hkey : legible key = true) :
    tokens (memberHead gap key hkey) = [.str false false key hkey, .colon] := rfl

theorem Taken.member {key : List UInt8} (hkey : legible key = true)
    (h : Taken stof (.value t) p ps rest) (gap : Gap) :
    Taken stof (.members [(key, t)]) (gap.1 ++ (JBaseObj.quoted key ++ 58 :: p))
      (memberHead gap key hkey ++ ps) rest := by
  refine ⟨?_, each_append.mpr ⟨⟨trivial, trivial, trivial⟩, h.ends⟩,
    each_append.mpr ⟨⟨trivial, rfl, trivial⟩, h.snug⟩, .member hkey h.derives⟩
  rw [render_append, ← h.text_eq, render_memberHead]

theorem Taken.members {key : List UInt8} (hkey : legible key = true) (sep : List Piece)
    (h : Taken stof (.value t) p ps (render sep q))
    (hsep : sep = [] ∨ ∃ gap, sep = [(gap, .comma)]) (hq : Taken stof (.members ms) q qs rest)
    (gap : Gap) :
    Taken stof (.members ((key, t) :: ms)) (gap.1 ++ (JBaseObj.quoted key ++ 58 :: p))
      (memberHead gap key hkey ++ (ps ++ (sep ++ qs))) rest := by
  obtain ⟨htext, hends, hsnug, hseparator⟩ := h.append sep hsep hq.text_eq hq.ends hq.snug
  refine ⟨?_, each_append.mpr ⟨⟨trivial, trivial, trivial⟩, hends⟩,
    each_append.mpr ⟨⟨trivial, rfl, trivial⟩, hsnug⟩, ?_⟩
  · rw [render_append, ← htext, render_memberHead]
  · rw [tokens_append, tokens_memberHead, tokens_append, tokens_append, List.cons_append,
      List.cons_append, List.nil_append]
    exact .members hkey h.derives hseparator hq.derives

end

/-! ## 5. The reader takes phrases only -/

theorem reader_skip (fuel : Nat) (p : List UInt8) :
    reader stof fuel (skip p) = reader stof fuel p := by
  cases fuel with
  | zero => rw [reader, reader]
  | succ fuel => rw [reader, skip_skip, reader]

theorem readItems_skip (fuel : Nat) (objs : List (JBaseObj Float)) (p : List UInt8) :
    readItems stof fuel objs (skip p) = readItems stof fuel objs p := by
  cases fuel with
  | zero => rw [readItems, readItems]
  | succ fuel => rw [readItems, reader_skip, readItems]

theorem readMembers_skip (fuel : Nat) (objs : List (List UInt8 × JBaseObj Float))
    (p : List UInt8) : readMembers stof fuel objs (skip p) = readMembers stof fuel objs p := by
  cases fuel with
  | zero => rw [readMembers, readMembers]
  | succ fuel => rw [readMembers, skip_skip, readMembers]

/-- Behind a value the reader stands in front of a gap, and then of `c`. -/
theorem gap_of_peek {q : List UInt8} {c : UInt8} (h : peek (skip q) = c) (hc : c ≠ 0) :
    ∃ gap : Gap, q = gap.1 ++ c :: go (skip q) 1 := by
  obtain ⟨gap, hgap⟩ := exists_gap q
  rw [peek_cases h hc] at hgap
  exact ⟨gap, hgap⟩

theorem ne_exponent_of_peek {q : List UInt8} {c : UInt8} (h : peek (skip q) = c)
    (hc : c ≠ 0 ∧ c ≠ 101 ∧ c ≠ 69) : peek q ≠ 101 ∧ peek q ≠ 69 := by
  obtain ⟨gap, hgap⟩ := gap_of_peek h hc.1
  rcases peek_gap gap (c :: go (skip q) 1) with hpeek | hblank
  · rw [hgap, hpeek]
    exact hc.2
  · rw [hgap]
    exact ne_exponent_of_blank hblank

variable (stof) in
structure Sound (fuel : Nat) : Prop where
  value : ∀ {p rest : List UInt8} {t : JBaseObj Float}, reader stof fuel p = .obj t rest →
    peek rest ≠ 101 ∧ peek rest ≠ 69 → ∃ ps, Taken stof (.value t) p ps rest
  items : ∀ {objs : List (JBaseObj Float)} {p rest : List UInt8} {t : JBaseObj Float},
    readItems stof fuel objs p = .obj t rest → ∃ ts ps, ∃ gap : Gap, t = .array (objs ++ ts) ∧
      Taken stof (.items ts) p ps (gap.1 ++ 93 :: rest)
  members : ∀ {objs : List (List UInt8 × JBaseObj Float)} {p rest : List UInt8}
    {t : JBaseObj Float}, readMembers stof fuel objs p = .obj t rest → ∃ ms ps, ∃ gap : Gap,
      t = .obj (assignAll objs ms) ∧ Taken stof (.members ms) p ps (gap.1 ++ 125 :: rest)

theorem Sound.reader {fuel : Nat} (ih : Sound stof fuel) {p rest : List UInt8}
    {t : JBaseObj Float} (h : reader stof (fuel + 1) p = .obj t rest)
    (hexp : peek rest ≠ 101 ∧ peek rest ≠ 69) : ∃ ps, Taken stof (.value t) p ps rest := by
  obtain ⟨gap, hgap⟩ := exists_gap p
  rw [JsonReader.reader] at h
  split at h
  · rw [peek_cases ‹peek (skip p) = 91› (by decide)] at hgap
    unfold readArray at h
    split at h
    · cases h
      rw [peek_cases ‹peek (go (skip p) 1) = 93› (by decide)] at hgap
      exact ⟨_, hgap ▸ Taken.emptyArray gap _⟩
    split at h
    · cases h
    · obtain ⟨ts, ps, gap', rfl, htaken⟩ := ih.items h
      rw [hgap]
      exact ⟨_, htaken.array gap⟩
  split at h
  · rw [peek_cases ‹peek (skip p) = 123› (by decide)] at hgap
    unfold readObj at h
    split at h
    · cases h
      rw [peek_cases ‹peek (go (skip p) 1) = 125› (by decide)] at hgap
      exact ⟨_, hgap ▸ Taken.emptyObj gap _⟩
    split at h
    · cases h
    · obtain ⟨ms, ps, gap', rfl, htaken⟩ := ih.members h
      rw [hgap]
      exact ⟨_, htaken.obj gap⟩
  · obtain ⟨tok, htok, hends, hscalar⟩ := readBase_obj_token h hexp
    rw [hgap, htok]
    exact ⟨_, Taken.scalar hends hscalar gap⟩

theorem Sound.readItems {fuel : Nat} (ih : Sound stof fuel) {objs : List (JBaseObj Float)}
    {p rest : List UInt8} {t : JBaseObj Float}
    (h : readItems stof (fuel + 1) objs p = .obj t rest) : ∃ ts ps, ∃ gap : Gap,
      t = .array (objs ++ ts) ∧ Taken stof (.items ts) p ps (gap.1 ++ 93 :: rest) := by
  rw [JsonReader.readItems] at h
  cases hv : JsonReader.reader stof fuel p with
  | obj value q =>
    simp only [hv] at h
    split at h
    · -- a comma and the next element
      have hcomma := ‹peek (skip q) = 44›
      obtain ⟨gap, hgap⟩ := gap_of_peek hcomma (by decide)
      obtain ⟨ts, qs, gap', rfl, hts⟩ := ih.items h
      obtain ⟨ps, hps⟩ := ih.value hv (ne_exponent_of_peek hcomma (by decide))
      rw [hgap] at hps
      have hitems := Taken.items [(gap, .comma)] hps (.inr ⟨gap, rfl⟩) hts
      rw [List.append_assoc]
      exact ⟨value :: ts, _, gap', rfl, hitems⟩
    split at h
    · have hclose := ‹peek (skip q) = 93›
      obtain ⟨gap, hgap⟩ := gap_of_peek hclose (by decide)
      obtain ⟨ps, hps⟩ := ih.value hv (ne_exponent_of_peek hclose (by decide))
      cases h
      rw [hgap] at hps
      exact ⟨[value], ps, gap, rfl, hps.item⟩
    split at h
    · cases h
    · -- the next element without a comma
      rw [readItems_skip] at h
      obtain ⟨ts, qs, gap', rfl, hts⟩ := ih.items h
      obtain ⟨ps, hps⟩ := ih.value hv hts.startsValue.ne_exponent
      have hitems := Taken.items [] hps (.inl rfl) hts
      rw [List.append_assoc]
      exact ⟨value :: ts, _, gap', rfl, hitems⟩
  | nullptr | outOfRange | unfinished =>
    rw [hv] at h
    cases h

theorem Sound.readMembers {fuel : Nat} (ih : Sound stof fuel)
    {objs : List (List UInt8 × JBaseObj Float)} {p rest : List UInt8} {t : JBaseObj Float}
    (h : readMembers stof (fuel + 1) objs p = .obj t rest) : ∃ ms ps, ∃ gap : Gap,
      t = .obj (assignAll objs ms) ∧ Taken stof (.members ms) p ps (gap.1 ++ 125 :: rest) := by
  obtain ⟨head, hhead⟩ := exists_gap p
  rw [JsonReader.readMembers] at h
  split at h
  · cases h
  rename_i key colon hstr
  obtain ⟨hkeyText, hkey⟩ := readStr_eq_some hstr
  split at h
  · cases h
  rename_i hne
  rw [hkeyText, peek_cases (not_not.mp hne) (by decide)] at hhead
  cases hv : JsonReader.reader stof fuel (go colon 1) with
  | obj value q =>
    simp only [hv] at h
    rw [hhead]
    split at h
    · have hcomma := ‹peek (skip q) = 44›
      obtain ⟨gap, hgap⟩ := gap_of_peek hcomma (by decide)
      obtain ⟨ms, qs, gap', rfl, hms⟩ := ih.members h
      obtain ⟨ps, hps⟩ := ih.value hv (ne_exponent_of_peek hcomma (by decide))
      rw [hgap] at hps
      have hmembers := Taken.members hkey [(gap, .comma)] hps (.inr ⟨gap, rfl⟩) hms head
      exact ⟨(key, value) :: ms, _, gap', rfl, hmembers⟩
    split at h
    · have hclose := ‹peek (skip q) = 125›
      obtain ⟨gap, hgap⟩ := gap_of_peek hclose (by decide)
      obtain ⟨ps, hps⟩ := ih.value hv (ne_exponent_of_peek hclose (by decide))
      cases h
      rw [hgap] at hps
      exact ⟨[(key, value)], _, gap, rfl, hps.member hkey head⟩
    split at h
    · cases h
    · rw [readMembers_skip] at h
      obtain ⟨ms, qs, gap', rfl, hms⟩ := ih.members h
      obtain ⟨ps, hps⟩ := ih.value hv hms.startsValue.ne_exponent
      have hmembers := Taken.members hkey [] hps (.inl rfl) hms head
      exact ⟨(key, value) :: ms, _, gap', rfl, hmembers⟩
  | nullptr | outOfRange | unfinished =>
    simp only [hv] at h
    cases h

theorem sound (fuel : Nat) : Sound stof fuel := by
  induction fuel with
  | zero =>
    refine ⟨fun h => ?_, fun h => ?_, fun h => ?_⟩
    · rw [JsonReader.reader] at h
      cases h
    · rw [JsonReader.readItems] at h
      cases h
    · rw [JsonReader.readMembers] at h
      cases h
  | succ fuel ih => exact ⟨ih.reader, ih.readItems, ih.readMembers⟩

/-! ## 6. The reader takes every phrase -/

theorem tokens_eq_separator {ps : List Piece} {sep : List Token} (h : tokens ps = sep)
    (hsep : Separator true sep) : ps = [] ∨ ∃ gap, ps = [(gap, .comma)] := by
  rcases hsep with rfl | ⟨-, rfl⟩
  · exact .inr (tokens_eq_singleton h)
  · exact .inl (List.map_eq_nil_iff.mp h)

/-- No gap in front of a character that stands at the beginning. -/
theorem gap_eq_nil {gap : Gap} {c : UInt8} {rest : List UInt8} (hc : 32 < c)
    (h : peek (gap.1 ++ c :: rest) = c) : gap.1 = [] := by
  obtain ⟨ws, hws⟩ := gap
  cases ws with
  | nil => rfl
  | cons d ws =>
    obtain rfl : d = c := h
    exact absurd (hws d List.mem_cons_self).2 (UInt8.not_le.mpr hc)

theorem skip_char (gap : Gap) {c : UInt8} (hc : 32 < c) (rest : List UInt8) :
    skip (gap.1 ++ c :: rest) = c :: rest :=
  skip_gap gap (.inl hc)

-- one turn of `readArray` and of `readObj`: the comma may be there or not

section
variable {fuel : Nat} {p q r : List UInt8} {v : JBaseObj Float} {sep : List Piece}
  (hsep : sep = [] ∨ ∃ gap, sep = [(gap, .comma)]) (hstart : StartsValue q)
include hsep hstart

theorem readItems_next (h : reader stof fuel p = .obj v (render sep q))
    (objs : List (JBaseObj Float)) :
    readItems stof (fuel + 1) objs p = readItems stof fuel (objs ++ [v]) q := by
  rcases hsep with rfl | ⟨gap, rfl⟩
  · obtain ⟨h0, h44, h93, -⟩ := hstart.ne
    rw [readItems, h]
    simp only [render, h44, h93, h0, if_false]
    exact readItems_skip fuel _ q
  · exact readItems_comma stof h (skip_char gap (by decide) q) objs

theorem readMembers_next {key : List UInt8} (hkey : readStr (skip p) = some (key, 58 :: r))
    (h : reader stof fuel r = .obj v (render sep q)) (objs : List (List UInt8 × JBaseObj Float)) :
    readMembers stof (fuel + 1) objs p = readMembers stof fuel (assign key v objs) q := by
  rcases hsep with rfl | ⟨gap, rfl⟩
  · obtain ⟨h0, h44, -, h125⟩ := hstart.ne
    rw [readMembers, hkey]
    simp only [peek_cons, go_one, ne_eq, not_true_eq_false, if_false, h, render, h44, h125, h0]
    exact readMembers_skip fuel _ q
  · exact readMembers_comma stof hkey h (skip_char gap (by decide) q) objs

end

variable (stof) in
/-- The read of a phrase, if the fuel is enough; `rest` begins with the closing bracket or brace
where the phrase is the elements or the members. -/
def Reads (fuel : Nat) : Phrase Float → List UInt8 → List UInt8 → Prop
  | .value t, p, rest => Gives (reader stof fuel p) (some t) rest
  | .items ts, p, rest => ∀ (objs : List (JBaseObj Float)) (gap : Gap) (next : List UInt8),
      rest = gap.1 ++ 93 :: next →
        Gives (readItems stof fuel objs p) (some (.array (objs ++ ts))) next
  | .members ms, p, rest =>
    ∀ (objs : List (List UInt8 × JBaseObj Float)) (gap : Gap) (next : List UInt8),
      rest = gap.1 ++ 125 :: next →
        Gives (readMembers stof fuel objs p) (some (.obj (assignAll objs ms))) next

theorem reads_of_succ {phrase : Phrase Float} {p rest : List UInt8}
    (h : ∀ fuel, Reads stof (fuel + 1) phrase p rest) (fuel : Nat) :
    Reads stof fuel phrase p rest := by
  cases fuel with
  | zero =>
    cases phrase with
    | value t => exact .inl (by rw [reader])
    | items ts => exact fun _ _ _ _ => .inl (by rw [readItems])
    | members ms => exact fun _ _ _ _ => .inl (by rw [readMembers])
  | succ fuel => exact h fuel

section
variable {fuel : Nat} {p q rest : List UInt8} {t : JBaseObj Float} {ts : List (JBaseObj Float)}
  {ms : List (List UInt8 × JBaseObj Float)}

theorem Scalar.reads {tok : Token} (h : Scalar stof tok t) (hends : tok.Ends rest) (gap : Gap) :
    Reads stof (fuel + 1) (.value t) (gap.1 ++ (tok.text ++ rest)) rest := by
  have hne := (tok.begins rest).ne_open (by cases h <;> exact ⟨nofun, nofun⟩)
  apply Or.inr
  rw [reader, skip_piece, if_neg hne.1, if_neg hne.2]
  exact h.readBase hends

theorem reads_array (hstart : StartsValue p) {gap' : Gap}
    (h : Reads stof fuel (.items ts) p (gap'.1 ++ 93 :: rest)) (gap : Gap) :
    Reads stof (fuel + 1) (.value (.array ts)) (gap.1 ++ 91 :: p) rest := by
  obtain ⟨h0, h93, -⟩ := hstart.peek_ne
  show Gives (reader stof (fuel + 1) (gap.1 ++ 91 :: p)) (some (.array ts)) rest
  rw [reader, skip_char gap (by decide), if_pos (peek_cons 91 p), go_one, readArray, if_neg h93,
    if_neg h0]
  exact h [] gap' rest rfl

theorem reads_obj (hstart : StartsValue p) {gap' : Gap}
    (h : Reads stof fuel (.members ms) p (gap'.1 ++ 125 :: rest)) (gap : Gap) :
    Reads stof (fuel + 1) (.value (.obj (assignAll [] ms))) (gap.1 ++ 123 :: p) rest := by
  obtain ⟨h0, -, h125⟩ := hstart.peek_ne
  show Gives (reader stof (fuel + 1) (gap.1 ++ 123 :: p)) (some (.obj (assignAll [] ms))) rest
  rw [reader, skip_char gap (by decide), if_neg (by rw [peek_cons]; decide),
    if_pos (peek_cons 123 p), go_one, readObj, if_neg h125, if_neg h0]
  exact h [] gap' rest rfl

theorem reads_item (h : Reads stof fuel (.value t) p rest) :
    Reads stof (fuel + 1) (.items [t]) p rest := by
  rintro objs gap next rfl
  rcases h with hfuel | hvalue
  · rw [readItems, hfuel]
    exact .inl rfl
  · exact .inr (readItems_last stof hvalue (skip_char gap (by decide) next) objs)

theorem reads_items {sep : List Piece} (hsep : sep = [] ∨ ∃ gap, sep = [(gap, .comma)])
    (hstart : StartsValue q) (h : Reads stof fuel (.value t) p (render sep q))
    (hs : Reads stof fuel (.items ts) q rest) : Reads stof (fuel + 1) (.items (t :: ts)) p rest := by
  intro objs gap next hnext
  rcases h with hfuel | hvalue
  · rw [readItems, hfuel]
    exact .inl rfl
  · have hrest := hs (objs ++ [t]) gap next hnext
    rw [readItems_next hsep hstart hvalue]
    rwa [List.append_assoc, List.singleton_append] at hrest

theorem readStr_key {key : List UInt8} (hkey : legible key = true) (gap : Gap) (p : List UInt8) :
    readStr (skip (gap.1 ++ (JBaseObj.quoted key ++ 58 :: p))) = some (key, 58 :: p) := by
  have hskip : skip (gap.1 ++ (JBaseObj.quoted key ++ 58 :: p)) = JBaseObj.quoted key ++ 58 :: p :=
    skip_piece gap (.str false false key hkey) _
  rw [hskip, readStr_quoted (legible_iff.mp hkey).2.1, if_pos hkey]

theorem reads_member {key : List UInt8} (hkey : legible key = true)
    (h : Reads stof fuel (.value t) p rest) (head : Gap) :
    Reads stof (fuel + 1) (.members [(key, t)])
      (head.1 ++ (JBaseObj.quoted key ++ 58 :: p)) rest := by
  rintro objs gap next rfl
  have hstr := readStr_key hkey head p
  rcases h with hfuel | hvalue
  · rw [readMembers, hstr]
    simp only [peek_cons, go_one, ne_eq, not_true_eq_false, if_false, hfuel]
    exact .inl rfl
  · exact .inr (readMembers_last stof hstr hvalue (skip_char gap (by decide) next) objs)

theorem reads_members {key : List UInt8} (hkey : legible key = true) {sep : List Piece}
    (hsep : sep = [] ∨ ∃ gap, sep = [(gap, .comma)]) (hstart : StartsValue q)
    (h : Reads stof fuel (.value t) p (render sep q)) (hs : Reads stof fuel (.members ms) q rest)
    (head : Gap) :
    Reads stof (fuel + 1) (.members ((key, t) :: ms))
      (head.1 ++ (JBaseObj.quoted key ++ 58 :: p)) rest := by
  intro objs gap next hnext
  have hstr := readStr_key hkey head p
  rcases h with hfuel | hvalue
  · rw [readMembers, hstr]
    simp only [peek_cons, go_one, ne_eq, not_true_eq_false, if_false, hfuel]
    exact .inl rfl
  · rw [readMembers_next hsep hstart hstr hvalue]
    exact hs (assign key t objs) gap next hnext

end

theorem Derives.reads {phrase : Phrase Float} {toks : List Token}
    (h : Derives stof true phrase toks) {ps : List Piece} (hps : tokens ps = toks)
    {rest : List UInt8} (hends : Each Piece.Ends ps rest) (hsnug : Each Piece.Snug ps rest)
    (fuel : Nat) : Reads stof fuel phrase (render ps rest) rest := by
  induction h generalizing ps rest fuel with
  | scalar h _ =>
    refine reads_of_succ (fun fuel => ?_) fuel
    obtain ⟨gap, rfl⟩ := tokens_eq_singleton hps
    exact h.reads hends.1 gap
  | emptyArray =>
    refine reads_of_succ (fun fuel => ?_) fuel
    obtain ⟨gap, qs, rfl, hqs⟩ := tokens_eq_cons hps
    obtain ⟨gap', rfl⟩ := tokens_eq_singleton hqs
    have hpeek : peek (gap'.1 ++ 93 :: rest) = 93 :=
      hsnug.1 (congrArg peek (skip_char gap' (by decide) rest))
    apply Or.inr
    show reader stof (fuel + 1) (gap.1 ++ 91 :: (gap'.1 ++ 93 :: rest)) = _
    rw [gap_eq_nil (by decide) hpeek, reader, skip_char gap (by decide)]
    rfl
  | emptyObj =>
    refine reads_of_succ (fun fuel => ?_) fuel
    obtain ⟨gap, qs, rfl, hqs⟩ := tokens_eq_cons hps
    obtain ⟨gap', rfl⟩ := tokens_eq_singleton hqs
    have hpeek : peek (gap'.1 ++ 125 :: rest) = 125 :=
      hsnug.1 (congrArg peek (skip_char gap' (by decide) rest))
    apply Or.inr
    show reader stof (fuel + 1) (gap.1 ++ 123 :: (gap'.1 ++ 125 :: rest)) = _
    rw [gap_eq_nil (by decide) hpeek, reader, skip_char gap (by decide)]
    rfl
  | array h ih =>
    refine reads_of_succ (fun fuel => ?_) fuel
    obtain ⟨gap, qs, rfl, htail⟩ := tokens_eq_cons hps
    obtain ⟨qs, close, rfl, hqs, hclose⟩ := tokens_eq_append htail
    obtain ⟨gap', rfl⟩ := tokens_eq_singleton hclose
    have hitems := ih hqs (each_append.mp hends.2).1 (each_append.mp hsnug.2).1 fuel
    have harray := reads_array (h.startsValue hqs _) hitems gap
    rwa [render, render_append]
  | obj h ih =>
    refine reads_of_succ (fun fuel => ?_) fuel
    obtain ⟨gap, qs, rfl, htail⟩ := tokens_eq_cons hps
    obtain ⟨qs, close, rfl, hqs, hclose⟩ := tokens_eq_append htail
    obtain ⟨gap', rfl⟩ := tokens_eq_singleton hclose
    have hmembers := ih hqs (each_append.mp hends.2).1 (each_append.mp hsnug.2).1 fuel
    have hobj := reads_obj (h.startsValue hqs _) hmembers gap
    rwa [render, render_append]
  | item h ih => exact reads_of_succ (fun fuel => reads_item (ih hps hends hsnug fuel)) fuel
  | items h hsep hs ih ihs =>
    refine reads_of_succ (fun fuel => ?_) fuel
    obtain ⟨qs, tail, rfl, hqs, htail⟩ := tokens_eq_append hps
    obtain ⟨sep, rs, rfl, hsepToks, hrs⟩ := tokens_eq_append htail
    obtain ⟨hends, hendsTail⟩ := each_append.mp hends
    obtain ⟨hsnug, hsnugTail⟩ := each_append.mp hsnug
    have hvalue := ih hqs hends hsnug fuel
    have hitems := ihs hrs (each_append.mp hendsTail).2 (each_append.mp hsnugTail).2 fuel
    rw [render_append, render_append]
    rw [render_append] at hvalue
    exact reads_items (tokens_eq_separator hsepToks hsep) (hs.startsValue hrs rest) hvalue hitems
  | member hkey h ih =>
    refine reads_of_succ (fun fuel => ?_) fuel
    obtain ⟨gap, qs, rfl, hmember⟩ := tokens_eq_cons hps
    obtain ⟨gap', qs, rfl, hqs⟩ := tokens_eq_cons hmember
    have hgap' : gap'.1 = [] := hsnug.2.1
    have hvalue := ih hqs hends.2.2 hsnug.2.2 fuel
    show Reads stof (fuel + 1) _ (gap.1 ++ (_ ++ (gap'.1 ++ 58 :: render qs rest))) rest
    rw [hgap']
    exact reads_member hkey hvalue gap
  | members hkey h hsep hs ih ihs =>
    refine reads_of_succ (fun fuel => ?_) fuel
    obtain ⟨gap, qs, rfl, hmember⟩ := tokens_eq_cons hps
    obtain ⟨gap', qs, rfl, hvalues⟩ := tokens_eq_cons hmember
    have hgap' : gap'.1 = [] := hsnug.2.1
    obtain ⟨qs, tail, rfl, hqs, htail⟩ := tokens_eq_append hvalues
    obtain ⟨sep, rs, rfl, hsepToks, hrs⟩ := tokens_eq_append htail
    obtain ⟨hends, hendsTail⟩ := each_append.mp hends.2.2
    obtain ⟨hsnug, hsnugTail⟩ := each_append.mp hsnug.2.2
    have hvalue := ih hqs hends hsnug fuel
    have hmembers := ihs hrs (each_append.mp hendsTail).2 (each_append.mp hsnugTail).2 fuel
    show Reads stof (fuel + 1) _
      (gap.1 ++ (_ ++ (gap'.1 ++ 58 :: render (qs ++ (sep ++ rs)) rest))) rest
    rw [hgap', render_append, render_append]
    rw [render_append] at hvalue
    exact reads_members hkey (tokens_eq_separator hsepToks hsep) (hs.startsValue hrs rest) hvalue
      hmembers gap

/-! ## 7. The accepted texts -/

theorem zero_not_mem_gap (gap : Gap) : 0 ∉ gap.1 := fun hzero =>
  absurd (gap.2 0 hzero).1 (by decide)

theorem Lexes.zero_not_mem {text : List UInt8} {ps : List Piece} {last : Gap}
    (h : Lexes text ps last) : 0 ∉ text := by
  rw [h.text_eq]
  exact zero_not_mem_render (zero_not_mem_gap last)

theorem rest_subset_render (ps : List Piece) (rest : List UInt8) : rest ⊆ render ps rest := by
  induction ps with
  | nil => exact List.Subset.refl rest
  | cons p ps ih =>
    exact List.Subset.trans ih (List.Subset.trans (List.subset_append_right _ _)
      (List.subset_append_right _ _))

/-- An accepted text is a row of tokens, and the reader takes them as a phrase. -/
theorem taken_of_parses {text : List UInt8} {t : JBaseObj Float} (hzero : 0 ∉ text)
    (h : Parses stof text t) : ∃ ps, ∃ last : Gap, Taken stof (.value t) text ps last.1 := by
  obtain ⟨rest', hparser⟩ := h
  rw [parser] at hparser
  cases hv : JsonReader.reader stof (2 * text.length + 1) text with
  | obj value rest =>
    simp only [hv] at hparser
    split at hparser
    · cases hparser
    rename_i hend
    cases hparser
    have hend := not_not.mp hend
    obtain ⟨last, hlast⟩ := exists_gap rest
    have hexp : peek rest ≠ 101 ∧ peek rest ≠ 69 := by
      rcases peek_skip rest with hpeek | hblank
      · rw [hpeek, hend]
        decide
      · exact ne_exponent_of_blank hblank
    obtain ⟨ps, hps⟩ := (sound _).value hv hexp
    have hnil : skip rest = [] := by
      cases hskip : skip rest with
      | nil => rfl
      | cons c q =>
        rw [hskip] at hend hlast
        obtain rfl : c = 0 := hend
        have hmem : 0 ∈ rest := by
          rw [hlast]
          simp
        exact absurd (hps.text_eq ▸ rest_subset_render ps rest hmem) hzero
    rw [hnil, List.append_nil] at hlast
    exact ⟨ps, last, hlast ▸ hps⟩
  | nullptr | outOfRange | unfinished =>
    simp only [hv] at hparser
    cases hparser

theorem Taken.lexes {text : List UInt8} {t : JBaseObj Float} {ps : List Piece} {last : Gap}
    (h : Taken stof (.value t) text ps last.1) : Lexes text ps last :=
  ⟨h.text_eq, h.ends⟩

theorem skip_last (last : Gap) : skip last.1 = [] := by
  have hskip := skip_gap last (p := []) (.inr rfl)
  rwa [List.append_nil] at hskip

theorem Lexes.parses_iff {text : List UInt8} {ps : List Piece} {last : Gap}
    (h : Lexes text ps last) (t : JBaseObj Float) :
    Parses stof text t ↔
      Each Piece.Snug ps last.1 ∧ Derives stof true (.value t) (tokens ps) := by
  constructor
  · intro hparses
    obtain ⟨qs, last', htaken⟩ := taken_of_parses h.zero_not_mem hparses
    obtain ⟨rfl, rfl⟩ := h.unique htaken.lexes
    exact ⟨htaken.snug, htaken.derives⟩
  · rintro ⟨hsnug, hderives⟩
    have hreads := hderives.reads rfl h.ends hsnug (2 * text.length + 1)
    rw [← h.text_eq] at hreads
    rcases hreads with hfuel | hvalue
    · exact absurd hfuel ((finishes stof _).value text le_rfl)
    · refine ⟨[], ?_⟩
      rw [parser, hvalue]
      simp only [skip_last]
      rfl

end JsonText

end LuaServer
