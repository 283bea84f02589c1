import LuaServer.Utils.JsonReader

/-!
# JsonRoundTrip — reading what has been written

`reread` says which tree the reader makes of a written tree, or that it refuses it: a text must not
be empty, a `float` must have a decimal numeral, and with layout no array and no object may be
empty.  That holds at every depth as long as no text has a quotation mark in it, and for every tree
that has itself been read.
-/

open Reasoning

namespace LuaServer.JsonReader

/-! ## 1. Blanks and ends -/

/-- What the layout puts between the values. -/
def Blank (ws : List UInt8) : Prop := ∀ c ∈ ws, c = 9 ∨ c = 10

/-- What a value is followed by. -/
def Ends (rest : List UInt8) : Prop :=
  ∀ c ∈ rest.head?, c = 44 ∨ c = 93 ∨ c = 125 ∨ c = 9 ∨ c = 10

theorem blank_newline (layout : Bool) : Blank (JBaseObj.newline layout) := by
  cases layout <;> simp [Blank, JBaseObj.newline]

theorem blank_writeDepth (layout : Bool) (depth : Nat) :
    Blank (JBaseObj.writeDepth layout depth) := by
  cases layout <;> simp +contextual [Blank, JBaseObj.writeDepth, List.mem_replicate]

theorem Blank.append {ws ws' : List UInt8} (h : Blank ws) (h' : Blank ws') : Blank (ws ++ ws') := by
  intro c hc
  exact (List.mem_append.mp hc).elim (h c) (h' c)

theorem skip_blank {ws p : List UInt8} (hws : Blank ws) (hp : ∀ c ∈ p.head?, 32 < c) :
    skip (ws ++ p) = p := by
  rw [skip, List.dropWhile_append_of_pos]
  · cases p with
    | nil => rfl
    | cons c p =>
      have hc : 32 < c := hp c rfl
      rw [List.dropWhile_cons_of_neg]
      simp [UInt8.not_le.mpr hc]
  · intro c hc
    rcases hws c hc with rfl | rfl <;> decide

theorem Ends.blank {ws rest : List UInt8} (hws : Blank ws) (hrest : Ends rest) :
    Ends (ws ++ rest) := by
  cases ws with
  | nil => exact hrest
  | cons c ws =>
    intro d hd
    obtain rfl : c = d := Option.some.inj hd
    exact .inr (.inr (.inr (hws c List.mem_cons_self)))

theorem ends_comma (rest : List UInt8) : Ends (44 :: rest) :=
  fun _ hc => .inl (Option.some.inj hc).symm

theorem ends_close {c : UInt8} (hc : c = 93 ∨ c = 125) (rest : List UInt8) : Ends (c :: rest) := by
  intro d hd
  obtain rfl : c = d := Option.some.inj hd
  exact .inr (hc.imp_right .inl)

/-! ## 2. Numbers -/

theorem takeWhile_digits {ds rest : List UInt8} (hds : ∀ c ∈ ds, isDigit c = true)
    (hrest : Ends rest) : (ds ++ rest).takeWhile isDigit = ds := by
  refine takeWhile_isDigit hds fun c hc => ?_
  rcases hrest c hc with rfl | rfl | rfl | rfl | rfl <;> decide

theorem scanNumber_digits {ds : List UInt8} (hds : ∀ c ∈ ds, isDigit c = true) (rest : List UInt8)
    (isfloat : Bool) (n : Nat) :
    scanNumber (ds ++ rest) isfloat n = scanNumber rest isfloat (n + ds.length) := by
  induction ds generalizing n with
  | nil => rfl
  | cons c ds ih =>
    have hc : isDigit c = true := hds c List.mem_cons_self
    have hpoint : c ≠ 46 := by
      rintro rfl
      exact absurd hc (by decide)
    rw [List.cons_append, scanNumber, if_neg hpoint, if_pos hc,
      ih (fun d hd => hds d (List.mem_cons_of_mem c hd)), List.length_cons, Nat.add_assoc,
      Nat.add_comm 1]

theorem scanNumber_ends {rest : List UInt8} (hrest : Ends rest) (isfloat : Bool) (n : Nat) :
    scanNumber rest isfloat n = some (isfloat, n, rest) := by
  cases rest with
  | nil => rfl
  | cons c rest =>
    rw [scanNumber]
    rcases hrest c rfl with rfl | rfl | rfl | rfl | rfl <;> rfl

theorem exponent_ends {rest : List UInt8} (hrest : Ends rest) : exponent rest = [] := by
  cases rest with
  | nil => rfl
  | cons c rest =>
    rw [exponent, if_neg]
    rcases hrest c rfl with rfl | rfl | rfl | rfl | rfl <;> decide

/-- A numeral is not empty and begins with a digit. -/
theorem peek_numeral (n : Nat) (rest : List UInt8) : isDigit (peek (numeral n ++ rest)) = true := by
  obtain ⟨c, cs, hcs, hdigit⟩ := numeral_head n
  rw [hcs]
  exact hdigit

theorem stoi_toStringInt (i : CInt) {rest : List UInt8} (hrest : Ends rest) :
    stoi (toStringInt i ++ rest) = some i := by
  obtain ⟨i, hi⟩ := i
  have htake : (numeral i.natAbs ++ rest).takeWhile isDigit = numeral i.natAbs :=
    takeWhile_digits (fun c hc => isDigit_of_mem_numeral hc) hrest
  by_cases hneg : i < 0
  · have htext : toStringInt ⟨i, hi⟩ ++ rest = 45 :: (numeral i.natAbs ++ rest) := by
      rw [toStringInt, if_pos hneg, List.cons_append]
    have hvalue : -(ofNumeral (numeral i.natAbs) : Int) = i := by
      rw [ofNumeral_numeral]
      omega
    rw [htext, stoi]
    simp only [show peek (45 :: (numeral i.natAbs ++ rest)) = 45 from rfl, if_true,
      show go (45 :: (numeral i.natAbs ++ rest)) 1 = numeral i.natAbs ++ rest from rfl, htake,
      hvalue, dif_pos hi]
  · have htext : toStringInt ⟨i, hi⟩ ++ rest = numeral i.natAbs ++ rest := by
      rw [toStringInt, if_neg hneg]
    have hvalue : (ofNumeral (numeral i.natAbs) : Int) = i := by
      rw [ofNumeral_numeral]
      omega
    have hsign : peek (numeral i.natAbs ++ rest) ≠ 45 := by
      intro h
      have := peek_numeral i.natAbs rest
      rw [h] at this
      exact absurd this (by decide)
    rw [htext, stoi]
    simp only [if_neg hsign, htake, hvalue, dif_pos hi]

variable {Float : Type} (stof : List UInt8 → Option Float)

/-- What begins otherwise than the three words is a number or a string. -/
theorem readBase_cons {c : UInt8} (hn : c ≠ 110) (hf : c ≠ 102) (ht : c ≠ 116) (p : List UInt8) :
    readBase stof (c :: p) =
      match scanNumber (if c = 45 then p else c :: p) false 0 with
      | none => .nullptr
      | some (isfloat, numpos, str) =>
        if numpos ≠ 0 then number stof isfloat (c :: p) str
        else
          match readStr str with
          | some (s, rest) => .obj (.str s) rest
          | none => .nullptr := by
  have hword : ∀ (d : UInt8) (w ds : List UInt8), w = d :: ds → c ≠ d → ¬ w <+: c :: p := by
    rintro d _ ds rfl hne ⟨rest, hrest⟩
    exact hne (List.cons.inj hrest).1.symm
  rw [readBase, if_neg (hword 110 _ [117, 108, 108] (by decide) hn),
    if_neg (hword 102 _ [97, 108, 115, 101] (by decide) hf),
    if_neg (hword 116 _ [114, 117, 101] (by decide) ht)]
  rfl

/-- A sign, and what begins with a digit. -/
theorem readBase_numeral {sign q : List UInt8} (hsign : sign = [] ∨ sign = [45])
    (hq : isDigit (peek q) = true) :
    readBase stof (sign ++ q) =
      match scanNumber q false 0 with
      | none => .nullptr
      | some (isfloat, numpos, str) =>
        if numpos ≠ 0 then number stof isfloat (sign ++ q) str
        else
          match readStr str with
          | some (s, rest) => .obj (.str s) rest
          | none => .nullptr := by
  rcases hsign with rfl | rfl
  · cases q with
    | nil => exact absurd hq (by decide)
    | cons c q =>
      have hne : ∀ d : UInt8, isDigit d = false → c ≠ d := by
        rintro d hd rfl
        exact absurd hq (by rw [peek, List.headD_cons, hd]; decide)
      rw [List.nil_append, readBase_cons stof (hne _ (by decide)) (hne _ (by decide))
        (hne _ (by decide)), if_neg (hne 45 (by decide))]
  · rw [List.singleton_append, readBase_cons stof (by decide) (by decide) (by decide), if_pos rfl]

theorem readBase_int (i : CInt) {rest : List UInt8} (hrest : Ends rest) :
    readBase stof (toStringInt i ++ rest) = .obj (.int i) rest := by
  have hdigits : ∀ c ∈ numeral i.val.natAbs, isDigit c = true :=
    fun c hc => isDigit_of_mem_numeral hc
  have hscan : scanNumber (numeral i.val.natAbs ++ rest) false 0 =
      some (false, (numeral i.val.natAbs).length, rest) := by
    rw [scanNumber_digits hdigits, scanNumber_ends hrest, Nat.zero_add]
  have hlen : (numeral i.val.natAbs).length ≠ 0 :=
    fun h => numeral_ne_nil _ (List.length_eq_zero_iff.mp h)
  obtain ⟨sign, hsign, htext⟩ : ∃ sign, (sign = [] ∨ sign = [45]) ∧
      toStringInt i = sign ++ numeral i.val.natAbs := by
    by_cases hneg : i.val < 0
    · exact ⟨[45], .inr rfl, if_pos hneg⟩
    · exact ⟨[], .inl rfl, if_neg hneg⟩
  have hstoi := stoi_toStringInt i hrest
  rw [htext, List.append_assoc] at hstoi ⊢
  rw [readBase_numeral stof hsign (peek_numeral _ _), hscan]
  simp only [ne_eq, hlen, not_false_eq_true, if_true, number, Bool.false_eq_true, if_false, hstoi]

/-! ## 3. Texts -/

theorem readStr_quoted {s : List UInt8} (hs : 34 ∉ s) (rest : List UInt8) :
    readStr (JBaseObj.quoted s ++ rest) = if legible s then some (s, rest) else none := by
  have hquoted : JBaseObj.quoted s ++ rest = 34 :: (s ++ 34 :: rest) := by
    simp [JBaseObj.quoted]
  rw [hquoted, readStr, if_pos (show peek (34 :: (s ++ 34 :: rest)) = 34 from rfl),
    show go (34 :: (s ++ 34 :: rest)) 1 = s ++ 34 :: rest from rfl]
  have hall : ∀ a : List UInt8, a ⊆ s → 0 ∉ a → ∀ x ∈ a, (x ≠ 34 && x ≠ 0) = true := by
    intro a ha hzero x hx
    simp only [ne_eq, Bool.and_eq_true, decide_eq_true_eq]
    exact ⟨fun h => hs (h ▸ ha hx), fun h => hzero (h ▸ hx)⟩
  by_cases hzero : 0 ∈ s
  · -- the reader stops at the NUL
    obtain ⟨a, b, hab, ha⟩ := List.eq_append_cons_of_mem hzero
    have hdrop : (s ++ 34 :: rest).dropWhile (fun c : UInt8 => c ≠ 34 && c ≠ 0) =
        0 :: (b ++ 34 :: rest) := by
      rw [hab, List.append_assoc,
        List.dropWhile_append_of_pos (hall a (hab ▸ List.subset_append_left a _) ha)]
      rfl
    have hlegible : ¬ legible s = true := fun h => (legible_iff.mp h).2.2 hzero
    simp only [hdrop, if_neg hlegible]
    exact if_neg fun h => absurd h.2 (show ¬ (0 : UInt8) = 34 by decide)
  · have hpos := hall s (List.Subset.refl s) hzero
    have htake : (s ++ 34 :: rest).takeWhile (fun c : UInt8 => c ≠ 34 && c ≠ 0) = s := by
      rw [List.takeWhile_append_of_pos hpos]
      exact List.append_nil s
    have hdrop : (s ++ 34 :: rest).dropWhile (fun c : UInt8 => c ≠ 34 && c ≠ 0) = 34 :: rest := by
      rw [List.dropWhile_append_of_pos hpos]
      rfl
    simp only [htake, hdrop, legible_iff, hs, hzero, not_false_eq_true, and_true,
      show peek (34 :: rest) = 34 from rfl]
    rfl

theorem readBase_str {s : List UInt8} (hs : 34 ∉ s) (rest : List UInt8) :
    readBase stof (JBaseObj.quoted s ++ rest) =
      if legible s then .obj (.str s) rest else .nullptr := by
  have hread := readStr_quoted hs rest
  have hquoted : JBaseObj.quoted s ++ rest = 34 :: (s ++ [34] ++ rest) := rfl
  rw [hquoted] at hread ⊢
  rw [readBase_cons stof (by decide) (by decide) (by decide)]
  -- no digit stands before the quotation mark
  simp only [show scanNumber (if (34 : UInt8) = 45 then s ++ [34] ++ rest
    else 34 :: (s ++ [34] ++ rest)) false 0 = some (false, 0, 34 :: (s ++ [34] ++ rest)) from rfl,
    hread]
  cases legible s <;> rfl

/-! ## 4. What is read back -/

/-- The forms of `std::to_string` of a `float`: a decimal numeral with a point, or the name of an
infinity or of no number. -/
def FloatText (text : List UInt8) : Prop :=
  ∃ sign, (sign = [] ∨ sign = [45]) ∧
    ((∃ ds fs, ds ≠ [] ∧ (∀ c ∈ ds, isDigit c = true) ∧ (∀ c ∈ fs, isDigit c = true) ∧
        text = sign ++ (ds ++ 46 :: fs)) ∨
      ∃ more, 46 ∉ more ∧ (text = sign ++ (ascii "inf" ++ more) ∨
        text = sign ++ (ascii "nan" ++ more)))

section
variable (toStringFloat : Float → List UInt8)

/-- The `float` that is read back; only a numeral has a point. -/
def rereadFloat (fv : Float) : Option Float :=
  if 46 ∈ toStringFloat fv then stof (toStringFloat fv) else none

mutual

/-- The tree that is read back; none if the reader refuses the text. -/
def reread (layout : Bool) : JBaseObj Float → Option (JBaseObj Float)
  | .int iv => some (.int iv)
  | .float fv => (rereadFloat stof toStringFloat fv).map .float
  | .null => some .null
  | .str sv => if legible sv then some (.str sv) else none
  | .bool bv => some (.bool bv)
  | .array items =>
    if layout ∧ items = [] then none else (rereadItems layout items).map .array
  | .obj maps =>
    if layout ∧ maps = [] then none else (rereadMembers layout maps).map .obj

def rereadItems (layout : Bool) : List (JBaseObj Float) → Option (List (JBaseObj Float))
  | [] => some []
  | value :: items =>
    (reread layout value).bind fun v => (rereadItems layout items).map (v :: ·)

def rereadMembers (layout : Bool) :
    List (List UInt8 × JBaseObj Float) → Option (List (List UInt8 × JBaseObj Float))
  | [] => some []
  | (key, value) :: maps =>
    if legible key then
      (reread layout value).bind fun v => (rereadMembers layout maps).map ((key, v) :: ·)
    else none

end

/-- The read gives what is to be read back, unless the fuel was too little. -/
def Gives (r : JsonRead Float) (v : Option (JBaseObj Float)) (rest : List UInt8) : Prop :=
  r = .unfinished ∨ match v with
    | some t => r = .obj t rest
    | none => ∀ t q, r ≠ .obj t q

theorem gives_nullptr (rest : List UInt8) :
    Gives (.nullptr : JsonRead Float) none rest := by
  apply Or.inr
  intro t q h
  cases h

theorem readBase_finite {sign ds fs : List UInt8} (hsign : sign = [] ∨ sign = [45]) (hne : ds ≠ [])
    (hds : ∀ c ∈ ds, isDigit c = true) (hfs : ∀ c ∈ fs, isDigit c = true) {rest : List UInt8}
    (hrest : Ends rest) :
    readBase stof (sign ++ (ds ++ 46 :: fs) ++ rest) =
      match stof (sign ++ (ds ++ 46 :: fs)) with
      | some fv => .obj (.float fv) rest
      | none => .outOfRange := by
  have hscan : scanNumber (ds ++ 46 :: fs ++ rest) false 0 =
      some (true, ds.length + fs.length, rest) := by
    rw [List.append_assoc, scanNumber_digits hds, List.cons_append, scanNumber, if_pos rfl,
      if_neg (by decide), scanNumber_digits hfs, scanNumber_ends hrest, Nat.zero_add]
  have hfirst : isDigit (peek (ds ++ 46 :: fs ++ rest)) = true := by
    obtain ⟨c, cs, rfl⟩ := List.exists_cons_of_ne_nil hne
    exact hds c List.mem_cons_self
  have hlen : ds.length + fs.length ≠ 0 := by
    have := List.length_pos_iff.mpr hne
    omega
  have htext : (sign ++ (ds ++ 46 :: fs ++ rest)).take
      ((sign ++ (ds ++ 46 :: fs ++ rest)).length - rest.length) ++ exponent rest =
        sign ++ (ds ++ 46 :: fs) := by
    rw [← List.append_assoc, List.length_append, Nat.add_sub_cancel, List.take_left' rfl,
      exponent_ends hrest, List.append_nil]
  rw [List.append_assoc, readBase_numeral stof hsign hfirst, hscan]
  apply (if_pos hlen).trans
  exact congrArg (fun text => match stof text with
    | some fv => JsonRead.obj (.float fv) rest
    | none => .outOfRange) htext

/-- A letter that begins none of the words, after a sign or not. -/
theorem readBase_letter {sign : List UInt8} (hsign : sign = [] ∨ sign = [45]) {c : UInt8}
    (hc : c = 105 ∨ c = 110 ∧ sign = [45]) (p : List UInt8) :
    readBase stof (sign ++ c :: p) = .nullptr := by
  rcases hsign with rfl | rfl
  · obtain rfl : c = 105 := hc.resolve_right (by simp)
    rw [List.nil_append, readBase_cons stof (by decide) (by decide) (by decide)]
    rfl
  · rw [List.singleton_append, readBase_cons stof (by decide) (by decide) (by decide)]
    rcases hc with rfl | ⟨rfl, -⟩ <;> rfl

theorem readBase_nan (p : List UInt8) : readBase stof (110 :: 97 :: p) = .nullptr := by
  have hword : ∀ (w : List UInt8), w.take 2 ≠ [110, 97] → 2 ≤ w.length →
      ¬ w <+: 110 :: 97 :: p := by
    rintro w hne hlen ⟨rest, hrest⟩
    have htake := congrArg (List.take 2) hrest
    rw [List.take_append_of_le_length hlen] at htake
    exact hne htake
  rw [readBase, if_neg (hword _ (by decide) (by decide)), if_neg (hword _ (by decide) (by decide)),
    if_neg (hword _ (by decide) (by decide))]
  rfl

theorem readBase_float (hform : ∀ fv, FloatText (toStringFloat fv)) (fv : Float) (layout : Bool)
    {rest : List UInt8} (hrest : Ends rest) :
    Gives (readBase stof (toStringFloat fv ++ rest))
      (reread stof toStringFloat layout (.float fv)) rest := by
  apply Or.inr
  rw [reread, rereadFloat]
  obtain ⟨sign, hsign, ⟨ds, fs, hne, hds, hfs, htext⟩ | ⟨more, hmore, htext⟩⟩ := hform fv
  · rw [htext, readBase_finite stof hsign hne hds hfs hrest, if_pos (by simp)]
    cases stof (sign ++ (ds ++ 46 :: fs)) with
    | none => nofun
    | some fv => rfl
  · -- the name of an infinity or of no number
    have hpoint : 46 ∉ toStringFloat fv := by
      rcases htext with h | h <;> rcases hsign with rfl | rfl <;> rw [h] <;>
        simp [hmore, show (46 : UInt8) ∉ ascii "inf" by decide,
          show (46 : UInt8) ∉ ascii "nan" by decide]
    have hnull : readBase stof (toStringFloat fv ++ rest) = .nullptr := by
      rcases htext with h | h
      · rw [h, List.append_assoc]
        exact readBase_letter stof hsign (.inl rfl) (110 :: 102 :: (more ++ rest))
      · rw [h, List.append_assoc]
        rcases hsign with rfl | rfl
        · exact readBase_nan stof (110 :: (more ++ rest))
        · exact readBase_letter stof (.inr rfl) (.inr ⟨rfl, rfl⟩) (97 :: 110 :: (more ++ rest))
    rw [if_neg hpoint, hnull]
    nofun

/-! ## 5. Reading a written tree -/

/-- No text of the node has a quotation mark in it. -/
def quoteFree : JBaseObj Float → Bool
  | .str sv => !sv.contains 34
  | .obj maps => maps.all fun e => !e.1.contains 34
  | _ => true

/-- A value does not begin with a blank or with the end of an array or object. -/
def Opens (p : List UInt8) : Prop := 32 < peek p ∧ peek p ≠ 93 ∧ peek p ≠ 125

theorem opens_of_peek {p : List UInt8} {c : UInt8} (h : peek p = c)
    (hc : 32 < c ∧ c ≠ 93 ∧ c ≠ 125) : Opens p := by
  rwa [Opens, h]

/-- What the text of an `int` or `float` begins with. -/
def OpensNumber (p : List UInt8) : Prop :=
  isDigit (peek p) = true ∨ peek p = 45 ∨ peek p = 105 ∨ peek p = 110

theorem OpensNumber.ne {p : List UInt8} (h : OpensNumber p) {c : UInt8} (hc : isDigit c = false)
    (hne : c ≠ 45 ∧ c ≠ 105 ∧ c ≠ 110) : peek p ≠ c := by
  rintro rfl
  rcases h with h | h | h | h
  · exact absurd h (by rw [hc]; decide)
  · exact hne.1 h
  · exact hne.2.1 h
  · exact hne.2.2 h

theorem OpensNumber.opens {p : List UInt8} (h : OpensNumber p) : Opens p := by
  refine ⟨?_, h.ne (by decide) (by decide), h.ne (by decide) (by decide)⟩
  rcases h with h | h | h | h
  · have hdigit : 48 ≤ peek p ∧ peek p ≤ 57 := by simpa [isDigit] using h
    exact UInt8.lt_of_lt_of_le (by decide) hdigit.1
  all_goals
    rw [h]
    decide

theorem opensNumber_int (i : CInt) (rest : List UInt8) : OpensNumber (toStringInt i ++ rest) := by
  rw [toStringInt]
  split
  · exact .inr (.inl rfl)
  · exact .inl (peek_numeral _ _)

theorem opensNumber_float {text : List UInt8} (h : FloatText text) (rest : List UInt8) :
    OpensNumber (text ++ rest) := by
  obtain ⟨sign, rfl | rfl, ⟨ds, fs, hne, hds, -, rfl⟩ | ⟨more, -, rfl | rfl⟩⟩ := h
  · obtain ⟨c, cs, rfl⟩ := List.exists_cons_of_ne_nil hne
    exact .inl (hds c List.mem_cons_self)
  · exact .inr (.inr (.inl rfl))
  · exact .inr (.inr (.inr rfl))
  all_goals exact .inr (.inl rfl)

theorem opens_writeAt (hform : ∀ fv, FloatText (toStringFloat fv)) (layout : Bool)
    (t : JBaseObj Float) (depth : Nat) (rest : List UInt8) :
    Opens (t.writeAt toStringFloat layout depth ++ rest) := by
  cases t with
  | int iv => exact (opensNumber_int iv rest).opens
  | float fv => exact (opensNumber_float (hform fv) rest).opens
  | null => exact opens_of_peek (c := 110) rfl (by decide)
  | str sv => exact opens_of_peek (c := 34) rfl (by decide)
  | bool bv =>
    cases bv with
    | false => exact opens_of_peek (c := 102) rfl (by decide)
    | true => exact opens_of_peek (c := 116) rfl (by decide)
  | array items => exact opens_of_peek (c := 91) rfl (by decide)
  | obj maps => exact opens_of_peek (c := 123) rfl (by decide)

theorem readBase_word (rest : List UInt8) :
    readBase stof (ascii "null" ++ rest) = .obj .null rest ∧
      readBase stof (ascii "false" ++ rest) = .obj (.bool false) rest ∧
      readBase stof (ascii "true" ++ rest) = .obj (.bool true) rest := by
  have hother : ∀ (w v : List UInt8), w.take 1 ≠ v.take 1 → 1 ≤ w.length → 1 ≤ v.length →
      ¬ w <+: v ++ rest := by
    rintro w v hne hw hv ⟨q, hq⟩
    have htake := congrArg (List.take 1) hq
    rw [List.take_append_of_le_length hw, List.take_append_of_le_length hv] at htake
    exact hne htake
  refine ⟨?_, ?_, ?_⟩
  · rw [readBase, if_pos (List.prefix_append _ _)]
    rfl
  · rw [readBase, if_neg (hother _ _ (by decide) (by decide) (by decide)),
      if_pos (List.prefix_append _ _)]
    rfl
  · rw [readBase, if_neg (hother _ _ (by decide) (by decide) (by decide)),
      if_neg (hother _ _ (by decide) (by decide) (by decide)), if_pos (List.prefix_append _ _)]
    rfl

/-- A written value is read back, whatever blanks stand before it. -/
def ReadsBack (layout : Bool) (t : JBaseObj Float) : Prop :=
  ∀ (fuel depth : Nat) (ws rest : List UInt8), Blank ws → Ends rest →
    Gives (reader stof fuel (ws ++ (t.writeAt toStringFloat layout depth ++ rest)))
      (reread stof toStringFloat layout t) rest

theorem reader_opens {ws p : List UInt8} (hws : Blank ws) (hp : Opens p) (fuel : Nat) :
    reader stof (fuel + 1) (ws ++ p) =
      if peek p = 91 then readArray (readItems stof fuel []) (go p 1)
      else if peek p = 123 then readObj (readMembers stof fuel []) (go p 1)
      else readBase stof p := by
  have hskip : skip (ws ++ p) = p := by
    apply skip_blank hws
    intro c hc
    cases p with
    | nil => cases hc
    | cons d p => exact Option.some.inj hc ▸ hp.1
  rw [reader, hskip]

theorem Gives.scalar {ws p : List UInt8} (hws : Blank ws) (hp : Opens p) (harray : peek p ≠ 91)
    (hobj : peek p ≠ 123) {v : Option (JBaseObj Float)} {rest : List UInt8}
    (h : Gives (readBase stof p) v rest) (fuel : Nat) :
    Gives (reader stof fuel (ws ++ p)) v rest := by
  cases fuel with
  | zero => exact .inl (by rw [reader])
  | succ fuel =>
    rw [reader_opens stof hws hp, if_neg harray, if_neg hobj]
    exact h

theorem Gives.word {ws p : List UInt8} (hws : Blank ws) {c : UInt8} (hp : peek p = c)
    (hc : 32 < c ∧ c ≠ 93 ∧ c ≠ 125 ∧ c ≠ 91 ∧ c ≠ 123) {v : Option (JBaseObj Float)}
    {rest : List UInt8} (h : Gives (readBase stof p) v rest) (fuel : Nat) :
    Gives (reader stof fuel (ws ++ p)) v rest := by
  obtain ⟨hlt, hclose, hclose', harray, hobj⟩ := hc
  exact h.scalar stof hws (opens_of_peek hp ⟨hlt, hclose, hclose'⟩) (hp ▸ harray) (hp ▸ hobj) fuel

theorem skip_close {ws : List UInt8} (hws : Blank ws) {c : UInt8} (hc : c = 93 ∨ c = 125)
    (rest : List UInt8) : skip (ws ++ c :: rest) = c :: rest := by
  apply skip_blank hws
  intro d hd
  obtain rfl : c = d := Option.some.inj hd
  rcases hc with rfl | rfl <;> decide

/-- A blank and the end of an array or object, or the comma and the next value. -/
theorem ends_behind {α : Type} (items : List α) (layout : Bool) {close : List UInt8}
    (hclose : Blank close) {c : UInt8} (hc : c = 93 ∨ c = 125) (next rest : List UInt8)
    (hnext : items = [] → next = []) :
    Ends (JBaseObj.comma items ++ (JBaseObj.newline layout ++ (next ++ (close ++ c :: rest)))) := by
  cases items with
  | nil =>
    rw [hnext rfl, show JBaseObj.comma ([] : List α) = [] from rfl, List.nil_append,
      List.nil_append]
    exact Ends.blank (blank_newline layout) (Ends.blank hclose (ends_close hc rest))
  | cons _ _ => exact ends_comma _

theorem skip_behind_last {close : List UInt8} (layout : Bool) (hclose : Blank close) {c : UInt8}
    (hc : c = 93 ∨ c = 125) (rest : List UInt8) :
    skip (JBaseObj.newline layout ++ (close ++ c :: rest)) = c :: rest := by
  rw [← List.append_assoc]
  exact skip_close ((blank_newline layout).append hclose) hc rest

theorem peek_cons (c : UInt8) (p : List UInt8) : peek (c :: p) = c := rfl

theorem go_one (c : UInt8) (p : List UInt8) : go (c :: p) 1 = p := rfl

-- one turn of `readArray`: the element is refused, is the last one, or has a comma behind it

theorem readItems_refused {fuel : Nat} {p : List UInt8} (h : ∀ v r, reader stof fuel p ≠ .obj v r)
    (objs : List (JBaseObj Float)) (rest : List UInt8) :
    Gives (readItems stof (fuel + 1) objs p) none rest := by
  refine .inr fun t q => ?_
  rw [readItems]
  cases hr : reader stof fuel p with
  | obj v r => exact absurd hr (h v r)
  | nullptr | outOfRange | unfinished =>
    intro hobj
    cases hobj

theorem readItems_last {fuel : Nat} {p q rest : List UInt8} {v : JBaseObj Float}
    (h : reader stof fuel p = .obj v q) (hskip : skip q = 93 :: rest)
    (objs : List (JBaseObj Float)) :
    readItems stof (fuel + 1) objs p = .obj (.array (objs ++ [v])) rest := by
  rw [readItems, h]
  simp only [hskip]
  rfl

theorem readItems_comma {fuel : Nat} {p q next : List UInt8} {v : JBaseObj Float}
    (h : reader stof fuel p = .obj v q) (hskip : skip q = 44 :: next)
    (objs : List (JBaseObj Float)) :
    readItems stof (fuel + 1) objs p = readItems stof fuel (objs ++ [v]) next := by
  rw [readItems, h]
  simp only [hskip]
  rfl

/-- The elements that are left, from the place where the first of them is to be read. -/
theorem readItems_write {layout : Bool} {items : List (JBaseObj Float)} (hne : items ≠ [])
    (hitems : ∀ value ∈ items, ReadsBack stof toStringFloat layout value) (fuel depth : Nat)
    (objs : List (JBaseObj Float)) {ws close : List UInt8} (hws : Blank ws) (hclose : Blank close)
    (rest : List UInt8) :
    Gives (readItems stof fuel objs (ws ++
        (JBaseObj.writeItems toStringFloat layout items depth ++ (close ++ 93 :: rest))))
      ((rereadItems stof toStringFloat layout items).map fun values => .array (objs ++ values))
      rest := by
  induction items generalizing fuel objs ws with
  | nil => exact absurd rfl hne
  | cons value items ih =>
    cases fuel with
    | zero => exact .inl (by rw [readItems])
    | succ fuel =>
      -- what stands behind the first element
      obtain ⟨behind, hbehind⟩ : ∃ behind, behind = JBaseObj.comma items ++
        (JBaseObj.newline layout ++ (JBaseObj.writeItems toStringFloat layout items depth ++
          (close ++ 93 :: rest))) := ⟨_, rfl⟩
      have htext : ws ++ (JBaseObj.writeItems toStringFloat layout (value :: items) depth ++
          (close ++ 93 :: rest)) = ws ++ JBaseObj.writeDepth layout depth ++
            (value.writeAt toStringFloat layout depth ++ behind) := by
        simp only [JBaseObj.writeItems, List.append_assoc, hbehind]
      have hends : Ends behind := by
        rw [hbehind]
        apply ends_behind items layout hclose (.inl rfl)
        rintro rfl
        rfl
      have hvalue := hitems value List.mem_cons_self fuel depth _ behind
        (hws.append (blank_writeDepth layout depth)) hends
      rw [htext, rereadItems]
      rcases hvalue with hfuel | hvalue
      · rw [readItems, hfuel]
        exact .inl rfl
      cases hreread : reread stof toStringFloat layout value with
      | none =>
        rw [hreread] at hvalue
        exact readItems_refused stof hvalue objs rest
      | some v =>
        rw [hreread] at hvalue
        cases items with
        | nil =>
          have hskip : skip behind = 93 :: rest := by
            rw [hbehind]
            exact skip_behind_last layout hclose (.inl rfl) rest
          rw [readItems_last stof hvalue hskip]
          exact .inr rfl
        | cons value' items =>
          have hskip : skip behind = 44 :: (JBaseObj.newline layout ++
              (JBaseObj.writeItems toStringFloat layout (value' :: items) depth ++
                (close ++ 93 :: rest))) := by
            rw [hbehind]
            rfl
          have hrest := ih (by simp) (fun x hx => hitems x (List.mem_cons_of_mem value hx)) fuel
            (objs ++ [v]) (blank_newline layout)
          rw [readItems_comma stof hvalue hskip]
          simp only [Option.bind_some, Option.map_map, Function.comp_def]
          simp only [List.append_assoc, List.singleton_append] at hrest
          exact hrest

-- one turn of `readObj`, in the same way; the key has been read

theorem readMembers_refused {fuel : Nat} {p q key : List UInt8}
    (hkey : readStr (skip p) = some (key, 58 :: q)) (h : ∀ v r, reader stof fuel q ≠ .obj v r)
    (objs : List (List UInt8 × JBaseObj Float)) (rest : List UInt8) :
    Gives (readMembers stof (fuel + 1) objs p) none rest := by
  refine .inr fun t r => ?_
  rw [readMembers, hkey]
  simp only [peek_cons, go_one, ne_eq, not_true_eq_false, if_false]
  cases hr : reader stof fuel q with
  | obj v r => exact absurd hr (h v r)
  | nullptr | outOfRange | unfinished =>
    intro hobj
    cases hobj

theorem readMembers_last {fuel : Nat} {p q r rest key : List UInt8} {v : JBaseObj Float}
    (hkey : readStr (skip p) = some (key, 58 :: q)) (h : reader stof fuel q = .obj v r)
    (hskip : skip r = 125 :: rest) (objs : List (List UInt8 × JBaseObj Float)) :
    readMembers stof (fuel + 1) objs p = .obj (.obj (assign key v objs)) rest := by
  rw [readMembers, hkey]
  simp only [peek_cons, go_one, ne_eq, not_true_eq_false, if_false, h, hskip]
  rfl

theorem readMembers_comma {fuel : Nat} {p q r next key : List UInt8} {v : JBaseObj Float}
    (hkey : readStr (skip p) = some (key, 58 :: q)) (h : reader stof fuel q = .obj v r)
    (hskip : skip r = 44 :: next) (objs : List (List UInt8 × JBaseObj Float)) :
    readMembers stof (fuel + 1) objs p = readMembers stof fuel (assign key v objs) next := by
  rw [readMembers, hkey]
  simp only [peek_cons, go_one, ne_eq, not_true_eq_false, if_false, h, hskip]
  rfl

/-- The members that are left; their keys come behind those read so far. -/
theorem readMembers_write {layout : Bool} {maps : List (List UInt8 × JBaseObj Float)}
    (hne : maps ≠ []) (hmaps : ∀ e ∈ maps, ReadsBack stof toStringFloat layout e.2)
    (hquote : ∀ e ∈ maps, 34 ∉ e.1) (fuel depth : Nat)
    (objs : List (List UInt8 × JBaseObj Float)) (hsorted : SortedKeys maps)
    (hobjs : ∀ e ∈ objs, ∀ f ∈ maps, e.1 < f.1) {ws close : List UInt8} (hws : Blank ws)
    (hclose : Blank close) (rest : List UInt8) :
    Gives (readMembers stof fuel objs (ws ++
        (JBaseObj.writeMembers toStringFloat layout maps depth ++ (close ++ 125 :: rest))))
      ((rereadMembers stof toStringFloat layout maps).map fun values => .obj (objs ++ values))
      rest := by
  induction maps generalizing fuel objs ws with
  | nil => exact absurd rfl hne
  | cons e maps ih =>
    obtain ⟨key, value⟩ := e
    cases fuel with
    | zero => exact .inl (by rw [readMembers])
    | succ fuel =>
      -- what stands behind the first member
      obtain ⟨behind, hbehind⟩ : ∃ behind, behind = JBaseObj.comma maps ++
        (JBaseObj.newline layout ++ (JBaseObj.writeMembers toStringFloat layout maps depth ++
          (close ++ 125 :: rest))) := ⟨_, rfl⟩
      obtain ⟨p, hp⟩ : ∃ p, p = value.writeAt toStringFloat layout depth ++ behind := ⟨_, rfl⟩
      have htext : ws ++ (JBaseObj.writeMembers toStringFloat layout ((key, value) :: maps) depth ++
          (close ++ 125 :: rest)) =
            ws ++ JBaseObj.writeDepth layout depth ++ (JBaseObj.quoted key ++ 58 :: p) := by
        simp only [JBaseObj.writeMembers, List.append_assoc, List.cons_append, hbehind, hp]
      have hends : Ends behind := by
        rw [hbehind]
        apply ends_behind maps layout hclose (.inr rfl)
        rintro rfl
        rfl
      have hread : readStr (skip (ws ++ JBaseObj.writeDepth layout depth ++
          (JBaseObj.quoted key ++ 58 :: p))) =
            if legible key then some (key, 58 :: p) else none := by
        rw [skip_blank (hws.append (blank_writeDepth layout depth)),
          readStr_quoted (hquote _ List.mem_cons_self)]
        intro c hc
        obtain rfl : 34 = c := Option.some.inj hc
        decide
      rw [htext, rereadMembers]
      cases hkey : legible key with
      | false =>
        rw [hkey, if_neg Bool.false_ne_true] at hread
        rw [readMembers, hread]
        exact gives_nullptr rest
      | true =>
        rw [hkey, if_pos rfl] at hread
        have hvalue := hmaps _ List.mem_cons_self fuel depth [] behind (by simp [Blank]) hends
        rw [List.nil_append, ← hp] at hvalue
        rcases hvalue with hfuel | hvalue
        · rw [readMembers, hread]
          simp only [peek_cons, go_one, ne_eq, not_true_eq_false, if_false, hfuel]
          exact .inl rfl
        cases hreread : reread stof toStringFloat layout value with
        | none =>
          rw [hreread] at hvalue
          exact readMembers_refused stof hread hvalue objs rest
        | some v =>
          rw [hreread] at hvalue
          have hassign : assign key v objs = objs ++ [(key, v)] :=
            assign_of_lt (fun e he => hobjs e he _ List.mem_cons_self) v
          cases maps with
          | nil =>
            have hskip : skip behind = 125 :: rest := by
              rw [hbehind]
              exact skip_behind_last layout hclose (.inr rfl) rest
            rw [readMembers_last stof hread hvalue hskip, hassign]
            exact .inr rfl
          | cons f maps =>
            have hskip : skip behind = 44 :: (JBaseObj.newline layout ++
                (JBaseObj.writeMembers toStringFloat layout (f :: maps) depth ++
                  (close ++ 125 :: rest))) := by
              rw [hbehind]
              rfl
            obtain ⟨hbelow, hsorted'⟩ := sortedKeys_cons_iff.mp hsorted
            have hobjs' : ∀ e ∈ objs ++ [(key, v)], ∀ g ∈ f :: maps, e.1 < g.1 := by
              intro e he g hg
              rcases List.mem_append.mp he with he | he
              · exact hobjs e he g (List.mem_cons_of_mem _ hg)
              · exact List.mem_singleton.mp he ▸ hbelow g hg
            have hrest := ih (by simp) (fun x hx => hmaps x (List.mem_cons_of_mem _ hx))
              (fun x hx => hquote x (List.mem_cons_of_mem _ hx)) fuel (objs ++ [(key, v)]) hsorted'
              hobjs' (blank_newline layout)
            rw [readMembers_comma stof hread hvalue hskip, hassign]
            simp only [if_true, Option.bind_some, Option.map_map, Function.comp_def]
            simp only [List.append_assoc, List.singleton_append] at hrest
            exact hrest

theorem readBase_close {c : UInt8} (hc : c = 93 ∨ c = 125) (rest : List UInt8) :
    readBase stof (c :: rest) = .nullptr := by
  rcases hc with rfl | rfl <;>
    rw [readBase_cons stof (by decide) (by decide) (by decide)] <;> rfl

/-- Behind a blank the reader expects an element, and `]` is none. -/
theorem readItems_blank {ws : List UInt8} (hws : Blank ws) (fuel : Nat) (rest : List UInt8) :
    Gives (readItems stof fuel [] (ws ++ 93 :: rest)) none rest := by
  cases fuel with
  | zero => exact .inl (by rw [readItems])
  | succ fuel =>
    rw [readItems]
    cases fuel with
    | zero =>
      rw [reader]
      exact .inl rfl
    | succ fuel =>
      rw [reader, skip_close hws (.inl rfl)]
      simp only [show peek (93 :: rest) = 93 from rfl, show ¬ (93 : UInt8) = 91 by decide, if_false,
        show ¬ (93 : UInt8) = 123 by decide, readBase_close stof (.inl rfl)]
      exact gives_nullptr rest

theorem readMembers_blank {ws : List UInt8} (hws : Blank ws) (fuel : Nat) (rest : List UInt8) :
    Gives (readMembers stof fuel [] (ws ++ 125 :: rest)) none rest := by
  cases fuel with
  | zero => exact .inl (by rw [readMembers])
  | succ fuel =>
    rw [readMembers, skip_close hws (.inr rfl)]
    exact gives_nullptr rest

theorem peek_blank {ws p : List UInt8} (hws : Blank ws) (hp : Opens p) :
    peek (ws ++ p) ≠ 93 ∧ peek (ws ++ p) ≠ 125 ∧ peek (ws ++ p) ≠ 0 := by
  cases ws with
  | nil =>
    refine ⟨hp.2.1, hp.2.2, fun h => ?_⟩
    have hlt := hp.1
    rw [List.nil_append] at h
    rw [h] at hlt
    exact absurd hlt (by decide)
  | cons c ws =>
    rw [List.cons_append, peek, List.headD_cons]
    rcases hws c List.mem_cons_self with rfl | rfl <;> decide

theorem reader_bracket {ws : List UInt8} (hws : Blank ws) (fuel : Nat) (p : List UInt8) :
    reader stof (fuel + 1) (ws ++ 91 :: p) = readArray (readItems stof fuel []) p ∧
      reader stof (fuel + 1) (ws ++ 123 :: p) = readObj (readMembers stof fuel []) p := by
  constructor
  · rw [reader_opens stof hws (opens_of_peek (c := 91) rfl (by decide))]
    exact if_pos rfl
  · rw [reader_opens stof hws (opens_of_peek (c := 123) rfl (by decide))]
    exact (if_neg (by decide : ¬ (123 : UInt8) = 91)).trans (if_pos rfl)

theorem readsBack_array (hform : ∀ fv, FloatText (toStringFloat fv)) (layout : Bool)
    {items : List (JBaseObj Float)}
    (hitems : ∀ value ∈ items, ReadsBack stof toStringFloat layout value) :
    ReadsBack stof toStringFloat layout (.array items) := by
  intro fuel depth ws rest hws _
  cases fuel with
  | zero => exact .inl (by rw [reader])
  | succ fuel =>
    have htext : (JBaseObj.array items).writeAt toStringFloat layout depth ++ rest =
        91 :: (JBaseObj.newline layout ++
          (JBaseObj.writeItems toStringFloat layout items (depth + 1) ++
            (JBaseObj.writeDepth layout depth ++ 93 :: rest))) := by
      simp [JBaseObj.writeAt]
    rw [htext, (reader_bracket stof hws fuel _).1, reread]
    cases items with
    | nil =>
      cases layout with
      | false => exact .inr rfl
      | true =>
        exact readItems_blank stof
          ((blank_newline true).append (blank_writeDepth true depth)) fuel rest
    | cons value items =>
      have hwritten := readItems_write stof toStringFloat (by simp) hitems fuel (depth + 1) []
        (blank_newline layout) (blank_writeDepth layout depth) rest
      obtain ⟨hclose, -, hend⟩ := peek_blank
        ((blank_newline layout).append (blank_writeDepth layout (depth + 1)))
        (opens_writeAt toStringFloat hform layout value (depth + 1) (JBaseObj.comma items ++
          (JBaseObj.newline layout ++ (JBaseObj.writeItems toStringFloat layout items (depth + 1) ++
            (JBaseObj.writeDepth layout depth ++ 93 :: rest)))))
      simp only [List.append_assoc] at hclose hend
      simp only [JBaseObj.writeItems, List.append_assoc] at hwritten ⊢
      rw [readArray, if_neg hclose, if_neg hend, if_neg (by simp)]
      exact hwritten

theorem readsBack_obj (layout : Bool) {maps : List (List UInt8 × JBaseObj Float)}
    (hmaps : ∀ e ∈ maps, ReadsBack stof toStringFloat layout e.2) (hquote : ∀ e ∈ maps, 34 ∉ e.1)
    (hsorted : SortedKeys maps) : ReadsBack stof toStringFloat layout (.obj maps) := by
  intro fuel depth ws rest hws _
  cases fuel with
  | zero => exact .inl (by rw [reader])
  | succ fuel =>
    have htext : (JBaseObj.obj maps).writeAt toStringFloat layout depth ++ rest =
        123 :: (JBaseObj.newline layout ++
          (JBaseObj.writeMembers toStringFloat layout maps (depth + 1) ++
            (JBaseObj.writeDepth layout depth ++ 125 :: rest))) := by
      simp [JBaseObj.writeAt]
    rw [htext, (reader_bracket stof hws fuel _).2, reread]
    cases maps with
    | nil =>
      cases layout with
      | false => exact .inr rfl
      | true =>
        exact readMembers_blank stof
          ((blank_newline true).append (blank_writeDepth true depth)) fuel rest
    | cons e maps =>
      obtain ⟨key, value⟩ := e
      have hwritten := readMembers_write stof toStringFloat (by simp) hmaps hquote fuel (depth + 1)
        [] hsorted (by simp) (blank_newline layout) (blank_writeDepth layout depth) rest
      obtain ⟨-, hclose, hend⟩ := peek_blank
        ((blank_newline layout).append (blank_writeDepth layout (depth + 1)))
        (opens_of_peek (p := JBaseObj.quoted key ++ 58 ::
          (value.writeAt toStringFloat layout (depth + 1) ++ (JBaseObj.comma maps ++
          (JBaseObj.newline layout ++
            (JBaseObj.writeMembers toStringFloat layout maps (depth + 1) ++
              (JBaseObj.writeDepth layout depth ++ 125 :: rest)))))) (c := 34) rfl (by decide))
      simp only [List.append_assoc] at hclose hend
      simp only [JBaseObj.writeMembers, List.append_assoc, List.cons_append] at hwritten ⊢
      rw [readObj, if_neg hclose, if_neg hend, if_neg (by simp)]
      exact hwritten

theorem readsBack (hform : ∀ fv, FloatText (toStringFloat fv)) (layout : Bool) (t : JBaseObj Float)
    (hquote : t.all quoteFree = true) (hsorted : t.all JBaseObj.keysSorted = true) :
    ReadsBack stof toStringFloat layout t := by
  induction t with
  | int iv =>
    intro fuel depth ws rest hws hrest
    have hnum := opensNumber_int iv rest
    refine Gives.scalar stof hws hnum.opens (hnum.ne (by decide) (by decide))
      (hnum.ne (by decide) (by decide)) (.inr ?_) fuel
    exact readBase_int stof iv hrest
  | float fv =>
    intro fuel depth ws rest hws hrest
    have hnum := opensNumber_float (hform fv) rest
    have h := readBase_float stof toStringFloat hform fv layout hrest
    exact Gives.scalar stof hws hnum.opens (hnum.ne (by decide) (by decide))
      (hnum.ne (by decide) (by decide)) h fuel
  | null =>
    intro fuel depth ws rest hws hrest
    have h : Gives (readBase stof (ascii "null" ++ rest)) (some .null) rest :=
      .inr (readBase_word stof rest).1
    exact h.word stof hws (c := 110) rfl (by decide) fuel
  | bool bv =>
    intro fuel depth ws rest hws hrest
    cases bv with
    | false =>
      have h : Gives (readBase stof (ascii "false" ++ rest)) (some (.bool false)) rest :=
        .inr (readBase_word stof rest).2.1
      exact h.word stof hws (c := 102) rfl (by decide) fuel
    | true =>
      have h : Gives (readBase stof (ascii "true" ++ rest)) (some (.bool true)) rest :=
        .inr (readBase_word stof rest).2.2
      exact h.word stof hws (c := 116) rfl (by decide) fuel
  | str sv =>
    intro fuel depth ws rest hws hrest
    have hsv : 34 ∉ sv := by simpa [JBaseObj.all, quoteFree] using hquote
    have h : Gives (readBase stof (JBaseObj.quoted sv ++ rest))
        (reread stof toStringFloat layout (.str sv)) rest := by
      rw [readBase_str stof hsv, reread]
      cases legible sv with
      | false => exact gives_nullptr rest
      | true => exact .inr rfl
    exact h.word stof hws (c := 34) rfl (by decide) fuel
  | array items ih =>
    apply readsBack_array stof toStringFloat hform layout
    intro value hvalue
    exact ih value hvalue ((JBaseObj.all_array_iff.mp hquote).2 value hvalue)
      ((JBaseObj.all_array_iff.mp hsorted).2 value hvalue)
  | obj maps ih =>
    obtain ⟨hkeys, hquote⟩ := JBaseObj.all_obj_iff.mp hquote
    obtain ⟨hnode, hsorted⟩ := JBaseObj.all_obj_iff.mp hsorted
    apply readsBack_obj stof toStringFloat layout
    · intro e he
      exact ih e he (hquote e he) (hsorted e he)
    · simpa [quoteFree] using hkeys
    · exact of_decide_eq_true hnode

/-! ## 6. The round trip -/

/-- The parser makes of a written tree what is read back, and nothing else. -/
theorem parses_write_iff (hform : ∀ fv, FloatText (toStringFloat fv)) (layout : Bool)
    {t t' : JBaseObj Float} (hquote : t.all quoteFree = true)
    (hsorted : t.all JBaseObj.keysSorted = true) :
    Parses stof (t.write toStringFloat layout) t' ↔
      reread stof toStringFloat layout t = some t' := by
  have hread := readsBack stof toStringFloat hform layout t hquote hsorted
    (2 * (t.write toStringFloat layout).length + 1) 0 [] [] (by simp [Blank]) (by simp [Ends])
  have hfuel := (finishes stof _).value (t.write toStringFloat layout) (le_refl _)
  rw [List.nil_append, List.append_nil, ← JBaseObj.write] at hread
  replace hread := hread.resolve_left hfuel
  unfold Parses parser
  cases hreread : reread stof toStringFloat layout t with
  | some u =>
    rw [hreread] at hread
    simp only at hread
    rw [hread]
    constructor
    · rintro ⟨rest, h⟩
      cases h
      rfl
    · rintro h
      cases h
      exact ⟨[], rfl⟩
  | none =>
    rw [hreread] at hread
    refine iff_of_false ?_ nofun
    rintro ⟨rest, h⟩
    split at h
    · rename_i value q hvalue
      exact hread value q hvalue
    · exact hread _ _ h

/-- A `float` in the tree, or a number with a point in the text it was read from. -/
def noFloat : JBaseObj Float → Bool
  | .float _ => false
  | _ => true

theorem reread_eq_self {t : JBaseObj Float} (hread : t.all nodeRead = true)
    (hfloat : t.all noFloat = true) : reread stof toStringFloat false t = some t := by
  induction t with
  | int | null | bool => rfl
  | float fv => cases hfloat
  | str sv => exact if_pos hread
  | array items ih =>
    have hitems : ∀ l : List (JBaseObj Float), (∀ x ∈ l, x ∈ items) →
        rereadItems stof toStringFloat false l = some l := by
      intro l hl
      induction l with
      | nil => rfl
      | cons value l ihl =>
        have hvalue := hl value List.mem_cons_self
        rw [rereadItems, ih value hvalue ((JBaseObj.all_array_iff.mp hread).2 value hvalue)
          ((JBaseObj.all_array_iff.mp hfloat).2 value hvalue),
          ihl fun x hx => hl x (List.mem_cons_of_mem value hx)]
        rfl
    rw [reread, hitems items fun _ h => h]
    rfl
  | obj maps ih =>
    obtain ⟨hnode, hread⟩ := JBaseObj.all_obj_iff.mp hread
    rw [nodeRead, Bool.and_eq_true, List.all_eq_true] at hnode
    have hmembers : ∀ l : List (List UInt8 × JBaseObj Float), (∀ x ∈ l, x ∈ maps) →
        rereadMembers stof toStringFloat false l = some l := by
      intro l hl
      induction l with
      | nil => rfl
      | cons e l ihl =>
        have he := hl e List.mem_cons_self
        rw [rereadMembers, if_pos (hnode.1 e he), ih e he (hread e he)
          ((JBaseObj.all_obj_iff.mp hfloat).2 e he),
          ihl fun x hx => hl x (List.mem_cons_of_mem e hx)]
        rfl
    rw [reread, hmembers maps fun _ h => h]
    rfl

/-- Without a `float` the text does not depend on how one is written. -/
theorem writeAt_noFloat (f g : Float → List UInt8) (layout : Bool) {t : JBaseObj Float}
    (hfloat : t.all noFloat = true) (depth : Nat) :
    t.writeAt f layout depth = t.writeAt g layout depth := by
  induction t generalizing depth with
  | int | null | str | bool => rfl
  | float fv => cases hfloat
  | array items ih =>
    have hitems : ∀ l : List (JBaseObj Float), (∀ x ∈ l, x ∈ items) → ∀ depth,
        JBaseObj.writeItems f layout l depth = JBaseObj.writeItems g layout l depth := by
      intro l hl depth
      induction l with
      | nil => rfl
      | cons value l ihl =>
        have hvalue := hl value List.mem_cons_self
        rw [JBaseObj.writeItems, JBaseObj.writeItems,
          ih value hvalue ((JBaseObj.all_array_iff.mp hfloat).2 value hvalue),
          ihl fun x hx => hl x (List.mem_cons_of_mem value hx)]
    rw [JBaseObj.writeAt, JBaseObj.writeAt, hitems items fun _ h => h]
  | obj maps ih =>
    have hmembers : ∀ l : List (List UInt8 × JBaseObj Float), (∀ x ∈ l, x ∈ maps) → ∀ depth,
        JBaseObj.writeMembers f layout l depth = JBaseObj.writeMembers g layout l depth := by
      intro l hl depth
      induction l with
      | nil => rfl
      | cons e l ihl =>
        have he := hl e List.mem_cons_self
        rw [JBaseObj.writeMembers, JBaseObj.writeMembers,
          ih e he ((JBaseObj.all_obj_iff.mp hfloat).2 e he),
          ihl fun x hx => hl x (List.mem_cons_of_mem e hx)]
    rw [JBaseObj.writeAt, JBaseObj.writeAt, hmembers maps fun _ h => h]

theorem quoteFree_of_nodeRead (t : JBaseObj Float) (h : nodeRead t = true) :
    quoteFree t = true := by
  have hlegible : ∀ s : List UInt8, legible s = true → (!s.contains 34) = true := by
    intro s hs
    simpa using (legible_iff.mp hs).2.1
  cases t with
  | int | float | null | bool | array => rfl
  | str sv => exact hlegible sv h
  | obj maps =>
    rw [nodeRead, Bool.and_eq_true, List.all_eq_true] at h
    exact List.all_eq_true.mpr fun e he => hlegible e.1 (h.1 e he)

theorem keysSorted_of_nodeRead (t : JBaseObj Float) (h : nodeRead t = true) :
    t.keysSorted = true := by
  cases t with
  | int | float | null | str | bool | array => rfl
  | obj maps =>
    rw [nodeRead, Bool.and_eq_true] at h
    exact h.2

/-- A tree without a `float` that has been read from a text is read again from its own text. -/
theorem json_round_trip {text : List UInt8} {t : JBaseObj Float} (h : Parses stof text t)
    (hfloat : t.all noFloat = true) : Parses stof (t.write toStringFloat false) t := by
  obtain ⟨rest, h⟩ := h
  have hread : t.all nodeRead = true := by
    unfold parser at h
    split at h
    · rename_i value q hvalue
      split at h
      · cases h
      · cases h
        exact ((readsWell stof _).value hvalue).2
    · exact ((readsWell stof _).value h).2
  -- any function that writes a numeral will do for the `float`s that do not occur
  have hform : ∀ _ : Float, FloatText [48, 46, 48] :=
    fun _ => ⟨[], .inl rfl, .inl ⟨[48], [48], by decide, List.forall_mem_singleton.mpr rfl,
      List.forall_mem_singleton.mpr rfl, rfl⟩⟩
  have hwrite : t.write toStringFloat false = t.write (fun _ => [48, 46, 48]) false :=
    writeAt_noFloat _ _ false hfloat 0
  rw [hwrite, parses_write_iff stof _ hform false (JBaseObj.all_mono quoteFree_of_nodeRead hread)
    (JBaseObj.all_mono keysSorted_of_nodeRead hread)]
  exact reread_eq_self stof _ hread hfloat

end

/-- `["a" -7{"c":[],"b":true}]`, without commas in the array and with the members not in order. -/
theorem json_round_trip_nested :
    ∃ t : JBaseObj Unit,
      Parses (fun _ => none) [91, 34, 97, 34, 32, 45, 55, 123, 34, 99, 34, 58, 91, 93, 44, 34, 98,
        34, 58, 116, 114, 117, 101, 125, 93] t ∧
      t.all noFloat = true ∧
      t.write (fun _ => []) false = [91, 34, 97, 34, 44, 45, 55, 44, 123, 34, 98, 34, 58, 116, 114,
        117, 101, 44, 34, 99, 34, 58, 91, 93, 125, 93] ∧
      Parses (fun _ => none) (t.write (fun _ => []) false) t := by
  have h : Parses (fun _ => none) [91, 34, 97, 34, 32, 45, 55, 123, 34, 99, 34, 58, 91, 93, 44, 34,
      98, 34, 58, 116, 114, 117, 101, 125, 93] (.array [.str [97], .int ⟨-7, by decide⟩,
        .obj [([98], .bool true), ([99], .array [])]] : JBaseObj Unit) := ⟨_, rfl⟩
  exact ⟨_, h, rfl, rfl, json_round_trip _ _ h rfl⟩

end LuaServer.JsonReader
