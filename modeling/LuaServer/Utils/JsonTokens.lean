import LuaServer.Utils.JsonRoundTrip

/-!
# JsonTokens — the tokens of a JSON text

A text is a row of tokens with gaps of blanks between them.  The tokens are those that the reader
knows: a number may have its point anywhere, and in front of a string the reader passes over a minus
and a point, which are part of the token here.  A number goes on as long as it can, so that a text
has at most one row of tokens.
-/

open Reasoning

namespace LuaServer

namespace JsonText

open JsonReader

/-! ## 1. Tokens -/

/-- Digits with at most one point. -/
def isNumeral (ds : List UInt8) : Bool :=
  ds.all (fun c => c = 46 || isDigit c) && decide (ds.count 46 ≤ 1) && ds.any isDigit

theorem isNumeral_iff {ds : List UInt8} : isNumeral ds = true ↔
    (∀ c ∈ ds, c = 46 ∨ isDigit c = true) ∧ ds.count 46 ≤ 1 ∧ ∃ c ∈ ds, isDigit c = true := by
  simp only [isNumeral, Bool.and_eq_true, List.all_eq_true, Bool.or_eq_true, decide_eq_true_eq,
    List.any_eq_true, and_assoc]

theorem isNumeral_one : isNumeral [49] = true := rfl

inductive Token
  | leftBracket
  | rightBracket
  | leftBrace
  | rightBrace
  | comma
  | colon
  | null
  | bool (bv : Bool)
  | number (minus : Bool) (ds : List UInt8) (h : isNumeral ds = true)
  -- a minus and a point in front of the quotation mark are passed over
  | str (minus point : Bool) (sv : List UInt8) (h : legible sv = true)
deriving DecidableEq

def sign (minus : Bool) : List UInt8 := if minus then [45] else []

def pointText (point : Bool) : List UInt8 := if point then [46] else []

namespace Token

def text : Token → List UInt8
  | leftBracket => [91]
  | rightBracket => [93]
  | leftBrace => [123]
  | rightBrace => [125]
  | comma => [44]
  | colon => [58]
  | null => ascii "null"
  | bool bv => if bv then ascii "true" else ascii "false"
  | number minus ds _ => sign minus ++ ds
  | str minus point sv _ => sign minus ++ (pointText point ++ JBaseObj.quoted sv)

/-- What may follow the token: no digit, point or exponent follows a number. -/
def Ends (tok : Token) (next : List UInt8) : Prop :=
  match tok with
  | number _ _ _ =>
    isDigit (peek next) = false ∧ peek next ≠ 46 ∧ peek next ≠ 101 ∧ peek next ≠ 69
  | _ => True

instance (tok : Token) (next : List UInt8) : Decidable (tok.Ends next) :=
  match tok with
  | number _ _ _ => inferInstanceAs (Decidable (isDigit (peek next) = false ∧ peek next ≠ 46 ∧
      peek next ≠ 101 ∧ peek next ≠ 69))
  | leftBracket | rightBracket | leftBrace | rightBrace | comma | colon | null | bool _
  | str _ _ _ _ => isTrue trivial

end Token

/-! ## 2. Texts -/

/-- What `skip` passes over. -/
abbrev Gap : Type := { ws : List UInt8 // ∀ c ∈ ws, 0 < c ∧ c ≤ 32 }

abbrev noGap : Gap := ⟨[], List.forall_mem_nil _⟩

theorem forall_mem_blank : ∀ c ∈ [(32 : UInt8)], 0 < c ∧ c ≤ 32 := by simp

abbrev blankGap : Gap := ⟨[32], forall_mem_blank⟩

/-- A token and the gap in front of it. -/
abbrev Piece : Type := Gap × Token

/-- The text of the pieces, and what follows them. -/
def render : List Piece → List UInt8 → List UInt8
  | [], rest => rest
  | (gap, tok) :: ps, rest => gap.1 ++ (tok.text ++ render ps rest)

/-- `R` holds of every piece and what follows it. -/
def Each (R : Piece → List UInt8 → Prop) : List Piece → List UInt8 → Prop
  | [], _ => True
  | p :: ps, rest => R p (render ps rest) ∧ Each R ps rest

instance eachDecidable {R : Piece → List UInt8 → Prop} [∀ p next, Decidable (R p next)] :
    ∀ (ps : List Piece) (rest : List UInt8), Decidable (Each R ps rest)
  | [], _ => isTrue trivial
  | p :: ps, rest =>
    have : Decidable (Each R ps rest) := eachDecidable ps rest
    instDecidableAnd (p := R p (render ps rest))

def Piece.Ends (p : Piece) (next : List UInt8) : Prop := p.2.Ends next

instance (p : Piece) (next : List UInt8) : Decidable (p.Ends next) :=
  inferInstanceAs (Decidable (p.2.Ends next))

/-- The tokens of a text, with the gaps in front of them and behind the last. -/
structure Lexes (text : List UInt8) (ps : List Piece) (last : Gap) : Prop where
  text_eq : text = render ps last.1
  ends : Each Piece.Ends ps last.1

def tokens (ps : List Piece) : List Token := ps.map Prod.snd

@[simp] theorem tokens_nil : tokens [] = [] := rfl

@[simp] theorem tokens_cons (p : Piece) (ps : List Piece) : tokens (p :: ps) = p.2 :: tokens ps :=
  rfl

@[simp] theorem tokens_append (ps qs : List Piece) : tokens (ps ++ qs) = tokens ps ++ tokens qs :=
  List.map_append

variable {R : Piece → List UInt8 → Prop} {ps qs : List Piece} {rest : List UInt8}

theorem render_append : render (ps ++ qs) rest = render ps (render qs rest) := by
  induction ps with
  | nil => rfl
  | cons p ps ih => rw [List.cons_append, render, render, ih]

theorem each_append :
    Each R (ps ++ qs) rest ↔ Each R ps (render qs rest) ∧ Each R qs rest := by
  induction ps with
  | nil => exact (true_and _).to_iff.symm
  | cons p ps ih => rw [List.cons_append, Each, Each, ih, render_append, and_assoc]

/-! ## 3. The first character of a token -/

/-- What begins a number or a string behind the sign. -/
def IsScanStart (c : UInt8) : Prop := c = 46 ∨ isDigit c = true ∨ c = 34

theorem isNumeral_peek {ds : List UInt8} (h : isNumeral ds = true) (next : List UInt8) :
    peek (ds ++ next) = 46 ∨ isDigit (peek (ds ++ next)) = true := by
  obtain ⟨hall, -, c, hc, -⟩ := isNumeral_iff.mp h
  obtain ⟨d, ds, rfl⟩ := List.exists_cons_of_ne_nil (List.ne_nil_of_mem hc)
  exact hall d List.mem_cons_self

theorem isScanStart_pointText (point : Bool) (sv next : List UInt8) :
    IsScanStart (peek (pointText point ++ JBaseObj.quoted sv ++ next)) := by
  cases point
  · exact .inr (.inr rfl)
  · exact .inl rfl

theorem isDigit_bounds {c : UInt8} (h : isDigit c = true) : 48 ≤ c ∧ c ≤ 57 := by
  rwa [isDigit, Bool.and_eq_true, decide_eq_true_eq, decide_eq_true_eq] at h

theorem IsScanStart.ne {c : UInt8} (h : IsScanStart c) {d : UInt8} (h46 : d ≠ 46) (h34 : d ≠ 34)
    (hd : isDigit d = false) : c ≠ d := by
  rintro rfl
  rcases h with h | h | h
  · exact h46 h
  · rw [hd] at h
    cases h
  · exact h34 h

/-- The characters that a token can begin with. -/
inductive Token.Begins : Token → UInt8 → Prop
  | leftBracket : Begins leftBracket 91
  | rightBracket : Begins rightBracket 93
  | leftBrace : Begins leftBrace 123
  | rightBrace : Begins rightBrace 125
  | comma : Begins comma 44
  | colon : Begins colon 58
  | null : Begins null 110
  | boolTrue : Begins (bool true) 116
  | boolFalse : Begins (bool false) 102
  | number (minus : Bool) {ds : List UInt8} (h : isNumeral ds = true) {c : UInt8}
      (hc : c = 45 ∨ IsScanStart c) : Begins (number minus ds h) c
  | str (minus point : Bool) {sv : List UInt8} (h : legible sv = true) {c : UInt8}
      (hc : c = 45 ∨ IsScanStart c) : Begins (str minus point sv h) c

theorem Token.begins (tok : Token) (next : List UInt8) : tok.Begins (peek (tok.text ++ next)) := by
  cases tok with
  | leftBracket => exact .leftBracket
  | rightBracket => exact .rightBracket
  | leftBrace => exact .leftBrace
  | rightBrace => exact .rightBrace
  | comma => exact .comma
  | colon => exact .colon
  | null => exact .null
  | bool bv =>
    cases bv
    · exact .boolFalse
    · exact .boolTrue
  | number minus ds h =>
    apply Begins.number
    cases minus
    · exact .inr ((isNumeral_peek h next).imp_right .inl)
    · exact .inl rfl
  | str minus point sv h =>
    apply Begins.str
    cases minus
    · exact .inr (isScanStart_pointText point sv next)
    · exact .inl rfl

theorem Token.Begins.lt {tok : Token} {c : UInt8} (h : tok.Begins c) : 32 < c := by
  cases h
  case number hc | str hc =>
    rcases hc with rfl | rfl | hc | rfl
    · decide
    · decide
    · exact UInt8.lt_of_lt_of_le (by decide) (isDigit_bounds hc).1
    · decide
  all_goals decide

/-- No token begins like an exponent. -/
theorem Token.Begins.ne_exponent {tok : Token} {c : UInt8} (h : tok.Begins c) :
    c ≠ 101 ∧ c ≠ 69 := by
  cases h
  case number hc | str hc =>
    rcases hc with rfl | hc
    · decide
    · exact ⟨hc.ne (by decide) (by decide) (by decide), hc.ne (by decide) (by decide) (by decide)⟩
  all_goals decide

theorem skip_gap (gap : Gap) {p : List UInt8} (h : 32 < peek p ∨ peek p = 0) :
    skip (gap.1 ++ p) = p := by
  have hstop : skip p = p := by
    cases p with
    | nil => rfl
    | cons c p =>
      rw [skip, List.dropWhile_cons_of_neg]
      rcases h with h | h
      · simp [UInt8.not_le.mpr (show 32 < c from h)]
      · simp [show c = 0 from h]
  rw [← hstop, skip, skip, List.dropWhile_append_of_pos]
  · show skip (skip p) = skip p
    rw [hstop, hstop]
  · intro c hc
    obtain ⟨hpos, hle⟩ := gap.2 c hc
    have hne : c ≠ 0 := by
      rintro rfl
      exact absurd hpos (by decide)
    simp [hne, hle]

theorem skip_piece (gap : Gap) (tok : Token) (next : List UInt8) :
    skip (gap.1 ++ (tok.text ++ next)) = tok.text ++ next :=
  skip_gap gap (.inl (tok.begins next).lt)

/-- A gap or a token: nothing that goes on with a number. -/
theorem peek_gap (gap : Gap) (p : List UInt8) :
    peek (gap.1 ++ p) = peek p ∨ 0 < peek (gap.1 ++ p) ∧ peek (gap.1 ++ p) ≤ 32 := by
  obtain ⟨ws, hws⟩ := gap
  cases ws with
  | nil => exact .inl rfl
  | cons c ws => exact .inr (hws c List.mem_cons_self)

/-! ## 4. Scanning -/

/-- The loop over a number goes on no further. -/
def ScanEnds (next : List UInt8) : Prop := isDigit (peek next) = false ∧ peek next ≠ 46

theorem scanNumber_stop {next : List UInt8} (h : ScanEnds next) (isfloat : Bool) (n : Nat) :
    scanNumber next isfloat n = some (isfloat, n, next) := by
  cases next with
  | nil => rfl
  | cons c next =>
    have hdigit : isDigit c = false := h.1
    rw [scanNumber, if_neg (show c ≠ 46 from h.2), if_neg (by rw [hdigit]; exact Bool.false_ne_true)]

theorem scanNumber_append {ds next : List UInt8} (hds : ∀ c ∈ ds, c = 46 ∨ isDigit c = true)
    (hnext : ScanEnds next) (isfloat : Bool) (hpoint : ds.count 46 + isfloat.toNat ≤ 1) (n : Nat) :
    scanNumber (ds ++ next) isfloat n =
      some (isfloat || decide (46 ∈ ds), n + ds.countP isDigit, next) := by
  induction ds generalizing isfloat n with
  | nil =>
    rw [List.nil_append, scanNumber_stop hnext]
    simp
  | cons c ds ih =>
    have hds' : ∀ d ∈ ds, d = 46 ∨ isDigit d = true :=
      fun d hd => hds d (List.mem_cons_of_mem c hd)
    rw [List.cons_append, scanNumber]
    rcases hds c List.mem_cons_self with rfl | hc
    · -- the point is the first one
      obtain rfl : isfloat = false := by
        cases isfloat
        · rfl
        · rw [List.count_cons_self] at hpoint
          simp at hpoint
      rw [List.count_cons_self] at hpoint
      rw [if_pos rfl, if_neg Bool.false_ne_true, ih hds' true (by simpa using hpoint)]
      simp [show isDigit 46 = false by decide]
    · have hne : c ≠ 46 := by
        rintro rfl
        exact absurd hc (by decide)
      rw [List.count_cons_of_ne hne] at hpoint
      rw [if_neg hne, if_pos hc, ih hds' isfloat hpoint, List.countP_cons_of_pos hc]
      simp [hne.symm, Nat.add_comm, Nat.add_left_comm]

theorem scanNumber_eq_some {p next : List UInt8} {f isfloat : Bool} {n numpos : Nat}
    (h : scanNumber p f n = some (isfloat, numpos, next)) :
    ∃ ds, p = ds ++ next ∧ (∀ c ∈ ds, c = 46 ∨ isDigit c = true) ∧
      ds.count 46 + f.toNat ≤ 1 ∧ isfloat = (f || decide (46 ∈ ds)) ∧
      numpos = n + ds.countP isDigit ∧ ScanEnds next := by
  have hf := Bool.toNat_le f
  induction p generalizing f n with
  | nil =>
    cases h
    exact ⟨[], rfl, by simp, by simpa using hf, by simp, rfl, by decide, by decide⟩
  | cons c p ih =>
    rw [scanNumber] at h
    split at h
    · rename_i hc
      subst hc
      split at h
      · cases h
      · rename_i hfalse
        obtain rfl : f = false := Bool.eq_false_iff.mpr hfalse
        obtain ⟨ds, rfl, hds, hpoint, hfloat, hnum, hends⟩ := ih h (Bool.toNat_le _)
        refine ⟨46 :: ds, rfl, List.forall_mem_cons.mpr ⟨.inl rfl, hds⟩, ?_, ?_, ?_, hends⟩
        · rw [List.count_cons_self]
          simpa using hpoint
        · simp [hfloat]
        · rw [hnum, List.countP_cons_of_neg (by decide)]
    · rename_i hne
      split at h
      · rename_i hc
        obtain ⟨ds, rfl, hds, hpoint, hfloat, hnum, hends⟩ := ih h hf
        refine ⟨c :: ds, rfl, List.forall_mem_cons.mpr ⟨.inr hc, hds⟩, ?_, ?_, ?_, hends⟩
        · rwa [List.count_cons_of_ne hne]
        · simp [hfloat, Ne.symm hne]
        · rw [hnum, List.countP_cons_of_pos hc]
          omega
      · rename_i hc
        cases h
        exact ⟨[], rfl, by simp, by simpa using hf, by simp, rfl, Bool.eq_false_iff.mpr hc, hne⟩

theorem countP_pos_of_isNumeral {ds : List UInt8} (h : isNumeral ds = true) :
    ds.countP isDigit ≠ 0 := by
  obtain ⟨-, -, hdigit⟩ := isNumeral_iff.mp h
  exact (List.countP_pos_iff.mpr hdigit).ne'

/-- The loop over a number that is a token. -/
theorem scanNumber_numeral {ds next : List UInt8} (h : isNumeral ds = true) (hnext : ScanEnds next) :
    scanNumber (ds ++ next) false 0 = some (decide (46 ∈ ds), ds.countP isDigit, next) := by
  obtain ⟨hall, hpoint, -⟩ := isNumeral_iff.mp h
  rw [scanNumber_append hall hnext false (by simpa using hpoint)]
  simp

/-- The loop in front of a string. -/
theorem scanNumber_quoted (point : Bool) (sv next : List UInt8) :
    scanNumber (pointText point ++ (JBaseObj.quoted sv ++ next)) false 0 =
      some (point, 0, JBaseObj.quoted sv ++ next) := by
  have hends : ScanEnds (JBaseObj.quoted sv ++ next) :=
    ⟨show isDigit 34 = false by decide, show (34 : UInt8) ≠ 46 by decide⟩
  cases point
  · exact scanNumber_stop hends false 0
  · exact scanNumber_stop hends true 0

/-! ## 5. One row of tokens -/

/-- The number or string at a position, behind its sign. -/
def lexScalar (minus : Bool) (q : List UInt8) : Option (Token × List UInt8) :=
  match scanNumber q false 0 with
  | none => none
  | some (point, numpos, str) =>
    if numpos ≠ 0 then
      if h : isNumeral (q.take (q.length - str.length)) = true then some (.number minus _ h, str)
      else none
    else
      match readStr str with
      | none => none
      | some (sv, rest) => if h : legible sv = true then some (.str minus point sv h, rest) else none

/-- The token at a position, and what follows it. -/
def lexToken (p : List UInt8) : Option (Token × List UInt8) :=
  if peek p = 91 then some (.leftBracket, go p 1)
  else if peek p = 93 then some (.rightBracket, go p 1)
  else if peek p = 123 then some (.leftBrace, go p 1)
  else if peek p = 125 then some (.rightBrace, go p 1)
  else if peek p = 44 then some (.comma, go p 1)
  else if peek p = 58 then some (.colon, go p 1)
  else if peek p = 110 then some (.null, go p 4)
  else if peek p = 116 then some (.bool true, go p 4)
  else if peek p = 102 then some (.bool false, go p 5)
  else if peek p = 45 then lexScalar true (go p 1)
  else lexScalar false p

theorem lexToken_scalar {minus : Bool} {q : List UInt8} (h : IsScanStart (peek q)) :
    lexToken (sign minus ++ q) = lexScalar minus q := by
  cases minus with
  | true => rfl
  | false =>
    have hne : ∀ d : UInt8, d ≠ 46 → d ≠ 34 → isDigit d = false → peek q ≠ d :=
      fun d h46 h34 hd => h.ne h46 h34 hd
    show lexToken q = _
    rw [lexToken, if_neg (hne 91 (by decide) (by decide) (by decide)),
      if_neg (hne 93 (by decide) (by decide) (by decide)),
      if_neg (hne 123 (by decide) (by decide) (by decide)),
      if_neg (hne 125 (by decide) (by decide) (by decide)),
      if_neg (hne 44 (by decide) (by decide) (by decide)),
      if_neg (hne 58 (by decide) (by decide) (by decide)),
      if_neg (hne 110 (by decide) (by decide) (by decide)),
      if_neg (hne 116 (by decide) (by decide) (by decide)),
      if_neg (hne 102 (by decide) (by decide) (by decide)),
      if_neg (hne 45 (by decide) (by decide) (by decide))]

theorem lexToken_text {tok : Token} {next : List UInt8} (h : tok.Ends next) :
    lexToken (tok.text ++ next) = some (tok, next) := by
  cases tok with
  | leftBracket | rightBracket | leftBrace | rightBrace | comma | colon | null => rfl
  | bool bv => cases bv <;> rfl
  | number minus ds hds =>
    have hscan := scanNumber_numeral hds ⟨h.1, h.2.1⟩
    have hstart : IsScanStart (peek (ds ++ next)) := (isNumeral_peek hds next).imp_right .inl
    have htake : (ds ++ next).take ((ds ++ next).length - next.length) = ds := by
      rw [List.length_append, Nat.add_sub_cancel, List.take_left]
    show lexToken (sign minus ++ ds ++ next) = _
    rw [List.append_assoc, lexToken_scalar hstart, lexScalar, hscan]
    simp only [ne_eq, countP_pos_of_isNumeral hds, not_false_eq_true, if_true, htake, hds, dite_true]
  | str minus point sv hsv =>
    have hread : readStr (JBaseObj.quoted sv ++ next) = some (sv, next) := by
      rw [readStr_quoted (legible_iff.mp hsv).2.1, if_pos hsv]
    have hstart := isScanStart_pointText point sv next
    show lexToken (sign minus ++ (pointText point ++ JBaseObj.quoted sv) ++ next) = _
    rw [List.append_assoc, lexToken_scalar hstart, List.append_assoc, lexScalar, scanNumber_quoted]
    simp only [ne_eq, not_true_eq_false, if_false, hread, hsv, dite_true]

theorem gap_eq {gap gap' : Gap} {p p' : List UInt8} (hp : 32 < peek p ∨ peek p = 0)
    (hp' : 32 < peek p' ∨ peek p' = 0) (h : gap.1 ++ p = gap'.1 ++ p') : gap = gap' ∧ p = p' := by
  have hskip := congrArg skip h
  rw [skip_gap gap hp, skip_gap gap' hp'] at hskip
  subst hskip
  exact ⟨Subtype.ext (List.append_cancel_right h), rfl⟩

theorem render_unique {ps qs : List Piece} {last last' : Gap} (hps : Each Piece.Ends ps last.1)
    (hqs : Each Piece.Ends qs last'.1) (h : render ps last.1 = render qs last'.1) :
    ps = qs ∧ last = last' := by
  have hnil : ∀ {gap gap' : Gap} {tok : Token} {next : List UInt8},
      gap.1 ++ (tok.text ++ next) ≠ gap'.1 := by
    intro gap gap' tok next heq
    have hbegins := (tok.begins next).lt
    obtain ⟨-, hempty⟩ := @gap_eq gap gap' _ [] (.inl hbegins) (.inr rfl)
      (by rw [heq, List.append_nil])
    rw [hempty] at hbegins
    exact absurd hbegins (by decide)
  induction ps generalizing qs with
  | nil =>
    cases qs with
    | nil => exact ⟨rfl, Subtype.ext h⟩
    | cons q qs => exact absurd h.symm hnil
  | cons p ps ih =>
    obtain ⟨gap, tok⟩ := p
    cases qs with
    | nil => exact absurd h hnil
    | cons q qs =>
      obtain ⟨gap', tok'⟩ := q
      obtain ⟨rfl, htext⟩ := gap_eq (.inl (tok.begins _).lt) (.inl (tok'.begins _).lt) h
      have hlex := lexToken_text hps.1
      rw [htext, lexToken_text hqs.1] at hlex
      obtain ⟨rfl, hrest⟩ := Prod.mk.inj (Option.some.inj hlex)
      obtain ⟨rfl, rfl⟩ := ih hps.2 hqs.2 hrest.symm
      exact ⟨rfl, rfl⟩

theorem Lexes.unique {text : List UInt8} {ps qs : List Piece} {last last' : Gap}
    (h : Lexes text ps last) (h' : Lexes text qs last') : ps = qs ∧ last = last' :=
  render_unique h.ends h'.ends (h.text_eq.symm.trans h'.text_eq)

/-- A row of tokens holds no NUL. -/
theorem zero_not_mem_text (tok : Token) : 0 ∉ tok.text := by
  have hsign : ∀ minus, (0 : UInt8) ∉ sign minus := by
    intro minus
    cases minus <;> decide
  have hpoint : ∀ point, (0 : UInt8) ∉ pointText point := by
    intro point
    cases point <;> decide
  cases tok with
  | number minus ds h =>
    have hds : (0 : UInt8) ∉ ds := by
      intro hmem
      rcases (isNumeral_iff.mp h).1 0 hmem with h | h
      · exact absurd h (by decide)
      · exact absurd h (by decide)
    exact fun h => (List.mem_append.mp h).elim (hsign minus) hds
  | str minus point sv h =>
    obtain ⟨-, -, hsv⟩ := legible_iff.mp h
    simp [Token.text, JBaseObj.quoted, hsign, hpoint, hsv]
  | bool bv => cases bv <;> decide
  | leftBracket | rightBracket | leftBrace | rightBrace | comma | colon | null => decide

theorem zero_not_mem_render {ps : List Piece} {rest : List UInt8} (h : 0 ∉ rest) :
    0 ∉ render ps rest := by
  induction ps with
  | nil => exact h
  | cons p ps ih =>
    obtain ⟨⟨ws, hws⟩, tok⟩ := p
    intro hmem
    rcases List.mem_append.mp hmem with hmem | hmem
    · exact absurd (hws 0 hmem).1 (by decide)
    · exact (List.mem_append.mp hmem).elim (zero_not_mem_text tok) ih

end JsonText

end LuaServer
