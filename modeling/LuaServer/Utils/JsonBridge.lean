import LuaServer.Utils.JsonCursor

/-!
# JsonBridge — the reader on the memory and the reader on the rest of a text

`JsonReader` takes a position for the bytes from it on.  With the conversions of the library the reader
on the memory gives the tree that `JsonReader` gives, and leaves the position in front of the same rest.
-/

open Reasoning

namespace LuaServer.JsonCursor

open Prog

/-! ## 1. Behind the text there is a NUL -/

section
variable (u behind : List UInt8)

theorem peek_memory : JsonReader.peek (u ++ 0 :: behind) = JsonReader.peek u := by
  cases u <;> rfl

theorem takeWhile_memory :
    (u ++ 0 :: behind).takeWhile isDigit = u.takeWhile isDigit := by
  induction u with
  | nil => rfl
  | cons c u ih =>
    rw [List.cons_append, List.takeWhile_cons, List.takeWhile_cons, ih]

variable {u} in
theorem go_memory (h : JsonReader.peek u ≠ 0) :
    JsonReader.go (u ++ 0 :: behind) 1 = JsonReader.go u 1 ++ 0 :: behind := by
  cases u with
  | nil => exact absurd rfl h
  | cons c u => rfl

theorem stoi_memory : JsonReader.stoi (u ++ 0 :: behind) = JsonReader.stoi u := by
  have hvalue : (if JsonReader.peek (u ++ 0 :: behind) = 45 then
        -(ofNumeral ((JsonReader.go (u ++ 0 :: behind) 1).takeWhile isDigit) : Int)
      else ofNumeral ((u ++ 0 :: behind).takeWhile isDigit)) =
      if JsonReader.peek u = 45 then -(ofNumeral ((JsonReader.go u 1).takeWhile isDigit) : Int)
      else ofNumeral (u.takeWhile isDigit) := by
    rw [peek_memory, takeWhile_memory]
    by_cases hminus : JsonReader.peek u = 45
    · rw [if_pos hminus, if_pos hminus, go_memory behind (hminus ▸ by decide), takeWhile_memory]
    · rw [if_neg hminus, if_neg hminus]
  unfold JsonReader.stoi
  simp only [hvalue]

theorem scanNumber_memory (f : Bool) (k : Nat) :
    JsonReader.scanNumber (u ++ 0 :: behind) f k =
      (JsonReader.scanNumber u f k).map fun r => (r.1, r.2.1, r.2.2 ++ 0 :: behind) := by
  induction u generalizing f k with
  | nil => rfl
  | cons c u ih =>
    rw [List.cons_append, JsonReader.scanNumber, JsonReader.scanNumber]
    by_cases hpoint : c = 46
    · rw [if_pos hpoint, if_pos hpoint]
      cases f with
      | true => rfl
      | false => exact ih true k
    · rw [if_neg hpoint, if_neg hpoint]
      by_cases hdigit : isDigit c = true
      · rw [if_pos hdigit, if_pos hdigit, ih]
      · rw [if_neg hdigit, if_neg hdigit]
        rfl

theorem exponent_memory :
    JsonReader.exponent (u ++ 0 :: behind) = JsonReader.exponent u := by
  cases u with
  | nil => rfl
  | cons c u =>
    rw [List.cons_append, JsonReader.exponent, JsonReader.exponent]
    simp only [peek_memory]
    by_cases hsign : JsonReader.peek u = 43 ∨ JsonReader.peek u = 45
    · have hne : JsonReader.peek u ≠ 0 := by
        rcases hsign with h | h <;> exact h ▸ by decide
      simp only [if_pos hsign, List.length_singleton, go_memory behind hne, takeWhile_memory]
    · have hgo : ∀ s : List UInt8, JsonReader.go s ([] : List UInt8).length = s := fun _ => rfl
      simp only [if_neg hsign, hgo, takeWhile_memory]

end

/-- The text that `strtof` matches of a C string: a number and the exponent behind it. -/
def matched (s : List UInt8) : List UInt8 :=
  match JsonReader.scanNumber (if JsonReader.peek s = 45 then JsonReader.go s 1 else s) false 0 with
  | some (_, _, str) => s.take (s.length - str.length) ++ JsonReader.exponent str
  | none => []

theorem matched_memory {u str : List UInt8} {f : Bool} {k : Nat} (behind : List UInt8)
    (h : JsonReader.scanNumber (if JsonReader.peek u = 45 then JsonReader.go u 1 else u) false 0 =
      some (f, k, str)) :
    matched (u ++ 0 :: behind) = u.take (u.length - str.length) ++ JsonReader.exponent str := by
  have hsign : (if JsonReader.peek (u ++ 0 :: behind) = 45 then
        JsonReader.go (u ++ 0 :: behind) 1 else u ++ 0 :: behind) =
      (if JsonReader.peek u = 45 then JsonReader.go u 1 else u) ++ 0 :: behind := by
    rw [peek_memory]
    by_cases hminus : JsonReader.peek u = 45
    · rw [if_pos hminus, if_pos hminus, go_memory behind (hminus ▸ by decide)]
    · rw [if_neg hminus, if_neg hminus]
  have htake : (u ++ 0 :: behind).take ((u ++ 0 :: behind).length - (str ++ 0 :: behind).length) =
      u.take (u.length - str.length) := by
    rw [List.length_append, List.length_append, Nat.add_sub_add_right,
      List.take_append_of_le_length (Nat.sub_le _ _)]
  rw [matched, hsign, scanNumber_memory, h]
  simp only [Option.map_some, htake, exponent_memory]

/-! ## 2. Agreement -/

section
variable {Float : Type} {text behind : List UInt8} {b t : JsonBuff}

def StopAgrees (r : JsonRead Float) (e : JsonStop) (_ : JsonBuff) : Prop :=
  match e with
  | .outside => False
  | .outOfRange => r = .outOfRange
  | .unfinished => r = .unfinished

/-- A value comes with the rest of the text behind the position. -/
def ValueAgrees (text : List UInt8) (r : JsonRead Float) (v : Option (JBaseObj Float))
    (t : JsonBuff) : Prop :=
  Within text.length t ∧ r = match v with
    | some obj => .obj obj (text.drop t.p)
    | none => .nullptr

/-- The program ends as the reader of the text does. -/
def Agrees (text : List UInt8) (r : JsonRead Float)
    (m : Prog JsonStop JsonBuff (Option (JBaseObj Float))) (b : JsonBuff) : Prop :=
  wp m (StopAgrees r) (ValueAgrees text r) b

variable {r r' : JsonRead Float} {m m' : Prog JsonStop JsonBuff (Option (JBaseObj Float))}

theorem agrees_ite {c d : Prop} [Decidable c] [Decidable d] (hiff : c ↔ d)
    (h : c → Agrees text r m b) (h' : ¬ c → Agrees text r' m' b) :
    Agrees text (if d then r else r') (if c then m else m') b := by
  by_cases hc : c
  · rw [if_pos hc, if_pos (hiff.mp hc)]
    exact h hc
  · rw [if_neg hc, if_neg fun hd => hc (hiff.mpr hd)]
    exact h' hc

/-- The first part of a program ends as a reader does, whose failures are those of the whole. -/
theorem agrees_bind {f : Option (JBaseObj Float) → Prog JsonStop JsonBuff (Option (JBaseObj Float))}
    (h : Agrees text r m b) (hrange : r = .outOfRange → r' = .outOfRange)
    (hfuel : r = .unfinished → r' = .unfinished)
    (hf : ∀ v t, ValueAgrees text r v t → Agrees text r' (f v) t) : Agrees text r' (m >>= f) b := by
  apply wp_bind (wp_mono h ?_ fun _ _ => id) hf
  intro e t he
  cases e with
  | outside => exact he
  | outOfRange => exact hrange he
  | unfinished => exact hfuel he

/-- A read behind a character that has been passed. -/
theorem agrees_pass (ht : Within text.length t) (hne : JsonReader.peek (text.drop t.p) ≠ 0)
    (hm : ∀ v, Within text.length v → text.drop v.p = JsonReader.go (text.drop t.p) 1 →
      Agrees text r m v) : Agrees text r (do go 1; m) t := by
  apply wp_bind (wp_go ht 1 (lt_of_peek_ne hne))
  intro _ v hv
  apply hm v hv.1.1
  rw [hv.2, JsonReader.go, List.drop_drop]

/-- A value behind a character that has been passed. -/
theorem agrees_close (ht : Within text.length t) (hne : JsonReader.peek (text.drop t.p) ≠ 0)
    (obj : JBaseObj Float) :
    Agrees text (.obj obj (JsonReader.go (text.drop t.p) 1)) (do go 1; return some obj) t :=
  agrees_pass ht hne fun _ hv hdrop => ⟨hv, by rw [hdrop]⟩

theorem agrees_word {w : List UInt8} (hb : Within text.length b) (h : w <+: text.drop b.p)
    (obj : JBaseObj Float) :
    Agrees text (.obj obj (JsonReader.go (text.drop b.p) w.length))
      (do go w.length; return some obj) b := by
  apply wp_mono (wp_word hb h (some obj)) (fun _ _ h => h)
  intro v t ht
  refine ⟨ht.1.1, ?_⟩
  rw [ht.2.1, ht.2.2, JsonReader.go, List.drop_drop]

end

/-! ## 3. The functions of the reader -/

section
variable {Float : Type} {stof : List UInt8 → Option Float} {text behind : List UInt8}
  {b t : JsonBuff}

theorem number_agrees (ht : Within text.length t) {u : List UInt8} {isfloat : Bool} {k : Nat}
    (h : JsonReader.scanNumber (if JsonReader.peek u = 45 then JsonReader.go u 1 else u) false 0 =
      some (isfloat, k, text.drop t.p)) :
    Agrees text (JsonReader.number stof isfloat u (text.drop t.p))
      (number JsonReader.stoi (fun s => stof (matched s)) isfloat (u ++ 0 :: behind)) t := by
  cases isfloat with
  | true =>
    simp only [JsonReader.number, number, matched_memory behind h, if_true]
    cases stof (u.take (u.length - (text.drop t.p).length) ++ JsonReader.exponent (text.drop t.p)) with
    | none => exact rfl
    | some fv => exact ⟨ht, rfl⟩
  | false =>
    simp only [JsonReader.number, number, stoi_memory, Bool.false_eq_true, if_false]
    cases JsonReader.stoi u with
    | none => exact rfl
    | some iv => exact ⟨ht, rfl⟩

theorem readBase_agrees (hb : Within text.length b) :
    Agrees text (JsonReader.readBase stof (text.drop b.p))
      (readBase JsonReader.stoi (fun s => stof (matched s)) (text ++ 0 :: behind)) b := by
  apply wp_bind wp_curr
  rintro p t ⟨rfl, rfl⟩
  rw [drop_memory hb, JsonReader.readBase]
  have hword : ∀ w : List UInt8, 0 ∉ w → (w <+: text.drop t.p ++ 0 :: behind ↔ w <+: text.drop t.p) :=
    fun w hw => prefix_memory_iff hw
  apply agrees_ite (hword (ascii "null") (by decide))
  · exact fun h => agrees_word hb ((hword _ (by decide)).mp h) _
  intro _
  apply agrees_ite (hword (ascii "false") (by decide))
  · exact fun h => agrees_word hb ((hword _ (by decide)).mp h) _
  intro _
  apply agrees_ite (hword (ascii "true") (by decide))
  · exact fun h => agrees_word hb ((hword _ (by decide)).mp h) _
  intro _
  apply wp_bind (wp_minus hb)
  rintro - v ⟨hv, hsign⟩
  apply wp_bind wp_curr
  rintro q v ⟨rfl, rfl⟩
  rw [drop_memory hv.1]
  apply wp_bind (wp_numberLoop hv.1 rfl)
  rintro scanned w ⟨hw, hscan⟩
  rw [hsign] at hscan
  cases scanned with
  | none =>
    rw [hscan]
    exact ⟨hw.1, rfl⟩
  | some scanned =>
    obtain ⟨isfloat, numpos⟩ := scanned
    simp only [hscan, Option.map_some]
    apply agrees_ite Iff.rfl
    · exact fun _ => number_agrees hw.1 hscan
    · intro _
      apply wp_bind (wp_readStr hw.1)
      rintro str x ⟨hx, hstr⟩
      rw [hstr]
      cases str with
      | none => exact ⟨hx.1, rfl⟩
      | some str => exact ⟨hx.1, rfl⟩

variable {m : Prog JsonStop JsonBuff (Option (JBaseObj Float))}

theorem openLoop_agrees {r : JsonRead Float} (hb : Within text.length b) {close : UInt8}
    (hclose : close ≠ 0) (empty : JBaseObj Float) (hm : Agrees text r m b) :
    Agrees text
      (if JsonReader.peek (text.drop b.p) = close then
        .obj empty (JsonReader.go (text.drop b.p) 1)
      else if JsonReader.peek (text.drop b.p) = 0 then .nullptr
      else r)
      (openLoop (text ++ 0 :: behind) close empty m) b := by
  apply wp_bind (wp_deref hb)
  rintro c t ⟨rfl, rfl⟩
  apply agrees_ite Iff.rfl
  · exact fun hend => agrees_close hb (hend ▸ hclose) _
  intro _
  exact agrees_ite Iff.rfl (fun _ => ⟨hb, rfl⟩) fun _ => hm

theorem closeLoop_agrees {r : List UInt8 → JsonRead Float} (ht : Within text.length t)
    {close : UInt8} (hclose : close ≠ 0) (whole : JBaseObj Float)
    (hm : ∀ v, Within text.length v → Agrees text (r (text.drop v.p)) m v) :
    Agrees text
      (let pstr := JsonReader.skip (text.drop t.p)
      if JsonReader.peek pstr = 44 then r (JsonReader.go pstr 1)
      else if JsonReader.peek pstr = close then .obj whole (JsonReader.go pstr 1)
      else if JsonReader.peek pstr = 0 then .nullptr
      else r pstr)
      (closeLoop (text ++ 0 :: behind) close whole m) t := by
  apply wp_bind (wp_skip ht)
  rintro - q ⟨hq, hskip⟩
  simp only [← hskip]
  apply wp_bind (wp_deref hq.1)
  rintro c q ⟨rfl, rfl⟩
  apply agrees_ite Iff.rfl
  · intro hcomma
    apply agrees_pass hq.1 (hcomma ▸ by decide)
    intro w hw hdrop
    rw [← hdrop]
    exact hm w hw
  intro _
  apply agrees_ite Iff.rfl
  · exact fun hend => agrees_close hq.1 (hend ▸ hclose) _
  intro _
  exact agrees_ite Iff.rfl (fun _ => ⟨hq.1, rfl⟩) fun _ => hm q hq.1

end

/-! ## 4. The recursion -/

section
variable {Float : Type} (stof : List UInt8 → Option Float) (text behind : List UInt8)

/-- With this fuel the two readers end in the same way from every position. -/
structure Bridges (fuel : Nat) : Prop where
  value : ∀ b, Within text.length b → Agrees text (JsonReader.reader stof fuel (text.drop b.p))
    (reader JsonReader.stoi (fun s => stof (matched s)) (text ++ 0 :: behind) fuel) b
  items : ∀ objs b, Within text.length b →
    Agrees text (JsonReader.readItems stof fuel objs (text.drop b.p))
      (readItems JsonReader.stoi (fun s => stof (matched s)) (text ++ 0 :: behind) fuel objs) b
  members : ∀ objs b, Within text.length b →
    Agrees text (JsonReader.readMembers stof fuel objs (text.drop b.p))
      (readMembers JsonReader.stoi (fun s => stof (matched s)) (text ++ 0 :: behind) fuel objs) b

variable {stof text behind} {fuel : Nat} {b : JsonBuff}

theorem Bridges.reader (ih : Bridges stof text behind fuel) (hb : Within text.length b) :
    Agrees text (JsonReader.reader stof (fuel + 1) (text.drop b.p))
      (reader JsonReader.stoi (fun s => stof (matched s)) (text ++ 0 :: behind) (fuel + 1)) b := by
  rw [JsonCursor.reader, JsonReader.reader]
  apply wp_bind (wp_skip hb)
  rintro - t ⟨ht, hskip⟩
  simp only [← hskip]
  apply wp_bind (wp_deref ht.1)
  rintro c t ⟨rfl, rfl⟩
  apply agrees_ite Iff.rfl
  · intro hopen
    apply agrees_pass ht.1 (hopen ▸ by decide)
    intro v hv hdrop
    rw [← hdrop]
    exact openLoop_agrees hv (by decide) _ (ih.items [] v hv)
  intro _
  apply agrees_ite Iff.rfl
  · intro hopen
    apply agrees_pass ht.1 (hopen ▸ by decide)
    intro v hv hdrop
    rw [← hdrop]
    exact openLoop_agrees hv (by decide) _ (ih.members [] v hv)
  · exact fun _ => readBase_agrees ht.1

theorem Bridges.readItems (ih : Bridges stof text behind fuel) {objs : List (JBaseObj Float)}
    (hb : Within text.length b) :
    Agrees text (JsonReader.readItems stof (fuel + 1) objs (text.drop b.p))
      (readItems JsonReader.stoi (fun s => stof (matched s)) (text ++ 0 :: behind) (fuel + 1) objs)
      b := by
  rw [JsonCursor.readItems, JsonReader.readItems]
  apply agrees_bind (ih.value b hb)
  · intro h
    rw [h]
  · intro h
    rw [h]
  rintro v t ⟨ht, hr⟩
  rw [hr]
  cases v with
  | none => exact ⟨ht, rfl⟩
  | some obj => exact closeLoop_agrees ht (by decide) _ fun q hq => ih.items _ q hq

theorem Bridges.readMembers (ih : Bridges stof text behind fuel)
    {objs : List (List UInt8 × JBaseObj Float)} (hb : Within text.length b) :
    Agrees text (JsonReader.readMembers stof (fuel + 1) objs (text.drop b.p))
      (readMembers JsonReader.stoi (fun s => stof (matched s)) (text ++ 0 :: behind) (fuel + 1)
        objs) b := by
  rw [JsonCursor.readMembers, JsonReader.readMembers]
  apply wp_bind (wp_skip hb)
  rintro - t ⟨ht, hskip⟩
  rw [← hskip]
  apply wp_bind (wp_deref ht.1)
  rintro c t ⟨rfl, rfl⟩
  apply wp_ite
  · intro _
    apply wp_bind (wp_readStr ht.1)
    rintro key k ⟨hk, hkey⟩
    rw [hkey]
    cases key with
    | none => exact ⟨hk.1, rfl⟩
    | some s =>
      apply wp_bind (wp_deref hk.1)
      rintro c k ⟨rfl, rfl⟩
      refine agrees_ite Iff.rfl (fun _ => ⟨hk.1, rfl⟩) fun hcolon => ?_
      have hne : JsonReader.peek (text.drop k.p) ≠ 0 := not_not.mp hcolon ▸ by decide
      apply agrees_pass hk.1 hne
      intro q hq hdrop
      rw [← hdrop]
      apply agrees_bind (ih.value q hq)
      · intro h
        rw [h]
      · intro h
        rw [h]
      rintro v u ⟨hu, hr⟩
      rw [hr]
      cases v with
      | none => exact ⟨hu, rfl⟩
      | some obj => exact closeLoop_agrees hu (by decide) _ fun q hq => ih.members _ q hq
  · -- without a quote `readStr` fails as well
    intro hquote
    rw [JsonReader.readStr, if_neg hquote]
    exact ⟨ht.1, rfl⟩

theorem bridges (fuel : Nat) : Bridges stof text behind fuel := by
  induction fuel with
  | zero =>
    refine ⟨fun b _ => ?_, fun objs b _ => ?_, fun objs b _ => ?_⟩
    · rw [JsonReader.reader, JsonCursor.reader]
      exact rfl
    · rw [JsonReader.readItems, JsonCursor.readItems]
      exact rfl
    · rw [JsonReader.readMembers, JsonCursor.readMembers]
      exact rfl
  | succ fuel ih =>
    exact ⟨fun b hb => ih.reader hb, fun objs b hb => ih.readItems hb,
      fun objs b hb => ih.readMembers hb⟩

/-- With the conversions of the library the parser on the memory gives what the parser of the text
gives. -/
theorem parser_agrees (stof : List UInt8 → Option Float) (text behind : List UInt8) :
    Agrees text (JsonReader.parser stof text)
      (parser JsonReader.stoi (fun s => stof (matched s)) (text ++ 0 :: behind)
        (2 * text.length + 1)) ⟨0, []⟩ := by
  have hread : Agrees text (JsonReader.reader stof (2 * text.length + 1) text)
      (reader JsonReader.stoi (fun s => stof (matched s)) (text ++ 0 :: behind)
        (2 * text.length + 1)) ⟨0, []⟩ :=
    (bridges _).value ⟨0, []⟩ ⟨Nat.zero_le _, List.pairwise_singleton _ _⟩
  rw [parser, JsonReader.parser]
  generalize JsonReader.reader stof (2 * text.length + 1) text = r at hread
  apply agrees_bind hread
  · rintro rfl
    rfl
  · rintro rfl
    rfl
  rintro v t ⟨ht, rfl⟩
  apply wp_bind (wp_skip ht)
  rintro - q ⟨hq, hskip⟩
  cases v with
  | none => exact ⟨hq.1, rfl⟩
  | some obj =>
    simp only [← hskip]
    apply wp_bind (wp_deref hq.1)
    rintro c q ⟨rfl, rfl⟩
    exact agrees_ite Iff.rfl (fun _ => ⟨hq.1, rfl⟩) fun _ => ⟨hq.1, rfl⟩

/-- A text has the tree of the grammar exactly if the parser on the memory returns it. -/
theorem parses_iff (stof : List UInt8 → Option Float) (text behind : List UInt8)
    (obj : JBaseObj Float) :
    JsonReader.Parses stof text obj ↔
      (parser JsonReader.stoi (fun s => stof (matched s)) (text ++ 0 :: behind)
        (2 * text.length + 1) ⟨0, []⟩).1 = .ok (some obj) := by
  have h := parser_agrees stof text behind
  unfold Agrees wp at h
  rw [JsonReader.Parses]
  cases hrun : parser JsonReader.stoi (fun s => stof (matched s)) (text ++ 0 :: behind)
      (2 * text.length + 1) ⟨0, []⟩ with
  | mk v t =>
    rw [hrun] at h
    cases v with
    | ok v =>
      obtain ⟨-, hr⟩ := h
      rw [hr]
      cases v with
      | none => simp
      | some v => simp
    | error e =>
      have hne : ∀ rest, JsonReader.parser stof text ≠ .obj obj rest := by
        intro rest heq
        rw [heq] at h
        cases e <;> cases h
      simp [hne]

end

end LuaServer.JsonCursor
