import LuaServer.Reasoning.Program
import LuaServer.Utils.JsonReader

/-!
# JsonCursor — the reader on the memory of the text

`JsonBuff` has the position in the memory that the functions of the reader share.  They are here with
every read of a character and every move of the position, and with the position that they leave behind
when they fail.

`std::stoi` and `std::stof` are parameters on the C string that they are given.
-/

open Reasoning

namespace LuaServer

/-- `p` as an index into the memory, and its former values, the last one first. -/
structure JsonBuff where
  p : Nat
  former : List Nat
deriving DecidableEq

/-- Why a read ends without a result. -/
inductive JsonStop
  /-- a character behind the memory -/
  | outside
  /-- the exception of `stoi` and `stof` -/
  | outOfRange
  /-- out of fuel -/
  | unfinished
deriving DecidableEq

namespace JsonCursor

open Prog

/-! ## 1. The buffer -/

/-- `p += len`. -/
def go (len : Nat) : Prog JsonStop JsonBuff Unit :=
  update fun buff => ⟨buff.p + len, buff.p :: buff.former⟩

def curr : Prog JsonStop JsonBuff Nat := do return (← get).p

/-- `*p`. -/
def deref (mem : List UInt8) : Prog JsonStop JsonBuff UInt8 := do
  match mem[(← get).p]? with
  | some c => return c
  | none => stop .outside

/-- The loops go over the memory from `p` on. -/
def skipLoop : List UInt8 → Prog JsonStop JsonBuff Unit
  | [] => stop .outside
  | c :: rest =>
    if c ≠ 0 ∧ c ≤ 32 then do
      go 1
      skipLoop rest
    else pure ()

def skip (mem : List UInt8) : Prog JsonStop JsonBuff Unit := do
  skipLoop (mem.drop (← curr))

/-! ## 2. Values -/

/-- `while (*p != '"' && *p != '\0')`: the characters that it passes. -/
def strLoop : List UInt8 → Prog JsonStop JsonBuff (List UInt8)
  | [] => stop .outside
  | c :: rest =>
    if c ≠ 34 ∧ c ≠ 0 then do
      go 1
      return c :: (← strLoop rest)
    else pure []

/-- None is `false`. -/
def readStr (mem : List UInt8) : Prog JsonStop JsonBuff (Option (List UInt8)) := do
  if (← deref mem) = 34 then
    go 1
    let outstr ← strLoop (mem.drop (← curr))
    if outstr ≠ [] ∧ (← deref mem) = 34 then
      go 1
      return some outstr
    else return none
  else return none

/-- A minus in front of a number. -/
def minus (mem : List UInt8) : Prog JsonStop JsonBuff Unit := do
  if (← deref mem) = 45 then go 1 else pure ()

/-- The loop over digits and points: `isfloat` and `numpos`; none at a second point. -/
def numberLoop : List UInt8 → Bool → Nat → Prog JsonStop JsonBuff (Option (Bool × Nat))
  | [], _, _ => stop .outside
  | c :: rest, isfloat, numpos =>
    if c = 46 then
      if isfloat then pure none
      else do
        go 1
        numberLoop rest true numpos
    else if isDigit c then do
      go 1
      numberLoop rest isfloat (numpos + 1)
    else pure (some (isfloat, numpos))

section
variable {Float : Type} (stoi : List UInt8 → Option CInt) (stof : List UInt8 → Option Float)
  (mem : List UInt8)

/-- `pnum` is the C string at the beginning of the number. -/
def number (isfloat : Bool) (pnum : List UInt8) :
    Prog JsonStop JsonBuff (Option (JBaseObj Float)) :=
  if isfloat then
    match stof pnum with
    | some fv => pure (some (.float fv))
    | none => stop .outOfRange
  else
    match stoi pnum with
    | some iv => pure (some (.int iv))
    | none => stop .outOfRange

/-- None is `nullptr`, as with the functions that follow. -/
def readBase : Prog JsonStop JsonBuff (Option (JBaseObj Float)) := do
  let str ← curr
  if ascii "null" <+: mem.drop str then
    go 4
    return some .null
  else if ascii "false" <+: mem.drop str then
    go 5
    return some (.bool false)
  else if ascii "true" <+: mem.drop str then
    go 4
    return some (.bool true)
  else
    minus mem
    match ← numberLoop (mem.drop (← curr)) false 0 with
    | none => return none
    | some (isfloat, numpos) =>
      if numpos ≠ 0 then number stoi stof isfloat (mem.drop str)
      else return (← readStr mem).map .str

/-! ## 3. Arrays and objects -/

/-- The condition of a loop for the first time; `first` reads from `parser_pos` on. -/
def openLoop (close : UInt8) (empty : JBaseObj Float)
    (first : Prog JsonStop JsonBuff (Option (JBaseObj Float))) :
    Prog JsonStop JsonBuff (Option (JBaseObj Float)) := do
  let pstr ← deref mem
  if pstr = close then
    go 1
    return some empty
  else if pstr = 0 then return none
  else first

/-- What follows a value: a comma, or the condition of the loop again; `next` reads from `parser_pos`
on. -/
def closeLoop (close : UInt8) (whole : JBaseObj Float)
    (next : Prog JsonStop JsonBuff (Option (JBaseObj Float))) :
    Prog JsonStop JsonBuff (Option (JBaseObj Float)) := do
  skip mem
  let pstr ← deref mem
  if pstr = 44 then
    go 1
    next
  else if pstr = close then
    go 1
    return some whole
  else if pstr = 0 then return none
  else next

def readArray (items : Prog JsonStop JsonBuff (Option (JBaseObj Float))) :
    Prog JsonStop JsonBuff (Option (JBaseObj Float)) :=
  openLoop mem 93 (.array []) items

def readObj (members : Prog JsonStop JsonBuff (Option (JBaseObj Float))) :
    Prog JsonStop JsonBuff (Option (JBaseObj Float)) :=
  openLoop mem 125 (.obj []) members

mutual

def reader : Nat → Prog JsonStop JsonBuff (Option (JBaseObj Float))
  | 0 => stop .unfinished
  | fuel + 1 => do
    skip mem
    let pstr ← deref mem
    if pstr = 91 then
      go 1
      readArray mem (readItems fuel [])
    else if pstr = 123 then
      go 1
      readObj mem (readMembers fuel [])
    else readBase stoi stof mem

/-- `readArray` from `parser_pos` on: one element, and what follows. -/
def readItems : Nat → List (JBaseObj Float) → Prog JsonStop JsonBuff (Option (JBaseObj Float))
  | 0, _ => stop .unfinished
  | fuel + 1, objs => do
    match ← reader fuel with
    | none => return none
    | some obj =>
      let objs := objs ++ [obj]
      closeLoop mem 93 (.array objs) (readItems fuel objs)

/-- `readObj` from `parser_pos` on: one member, and what follows. -/
def readMembers : Nat → List (List UInt8 × JBaseObj Float) →
    Prog JsonStop JsonBuff (Option (JBaseObj Float))
  | 0, _ => stop .unfinished
  | fuel + 1, objs => do
    skip mem
    if (← deref mem) = 34 then
      match ← readStr mem with
      | none => return none
      | some s =>
        if (← deref mem) ≠ 58 then return none
        else
          go 1
          match ← reader fuel with
          | none => return none
          | some obj =>
            let objs := assign s obj objs
            closeLoop mem 125 (.obj objs) (readMembers fuel objs)
    else return none

end

/-- The `skip` comes before the result is looked at. -/
def parser (fuel : Nat) : Prog JsonStop JsonBuff (Option (JBaseObj Float)) := do
  let obj ← reader stoi stof mem fuel
  skip mem
  match obj with
  | none => return none
  | some obj => if (← deref mem) ≠ 0 then return none else return some obj

end

/-! ## 4. Moves over a text -/

/-- Up to the terminator, and never back. -/
structure Within (n : Nat) (buff : JsonBuff) : Prop where
  le : buff.p ≤ n
  descending : (buff.p :: buff.former).Pairwise (· ≥ ·)

/-- From `b` on. -/
def Moved (n : Nat) (b t : JsonBuff) : Prop := Within n t ∧ b.p ≤ t.p

theorem Moved.refl {n : Nat} {b : JsonBuff} (h : Within n b) : Moved n b b := ⟨h, Nat.le_refl _⟩

theorem Moved.trans {n : Nat} {b t u : JsonBuff} (h : Moved n b t) (h' : Moved n t u) :
    Moved n b u :=
  ⟨h'.1, Nat.le_trans h.2 h'.2⟩

section
variable {n : Nat} {b : JsonBuff} {E : JsonStop → JsonBuff → Prop}

theorem wp_go (hb : Within n b) (len : Nat) (hlen : b.p + len ≤ n) :
    wp (go len) E (fun _ t => Moved n b t ∧ t.p = b.p + len) b := by
  apply wp_update
  refine ⟨⟨⟨hlen, ?_⟩, Nat.le_add_right _ _⟩, rfl⟩
  refine List.pairwise_cons.mpr ⟨fun q hq => ?_, hb.descending⟩
  show b.p + len ≥ q
  rcases List.mem_cons.mp hq with rfl | hq
  · exact Nat.le_add_right _ _
  · have := (List.pairwise_cons.mp hb.descending).1 q hq
    omega

theorem wp_curr : wp curr E (fun p t => t = b ∧ p = b.p) b := ⟨rfl, rfl⟩

end

section
variable {text behind : List UInt8} {b : JsonBuff} {E : JsonStop → JsonBuff → Prop}

theorem drop_memory (hb : Within text.length b) :
    (text ++ 0 :: behind).drop b.p = text.drop b.p ++ 0 :: behind :=
  List.drop_append_of_le_length hb.le

theorem lt_of_drop_eq_cons {p : Nat} {c : UInt8} {rest : List UInt8} (h : text.drop p = c :: rest) :
    p < text.length ∧ text.drop (p + 1) = rest := by
  constructor
  · by_contra hle
    rw [List.drop_eq_nil_of_le (by omega)] at h
    cases h
  · rw [← List.drop_drop, h]
    rfl

theorem wp_deref (hb : Within text.length b) :
    wp (deref (text ++ 0 :: behind)) E
      (fun c t => t = b ∧ c = JsonReader.peek (text.drop b.p)) b := by
  have hget : (text ++ 0 :: behind)[b.p]? = some (JsonReader.peek (text.drop b.p)) := by
    have hhead : (text ++ 0 :: behind)[b.p]? = ((text ++ 0 :: behind).drop b.p).head? := by
      rw [List.head?_drop]
    rw [hhead, drop_memory hb, JsonReader.peek]
    cases text.drop b.p <;> rfl
  show wp (match (text ++ 0 :: behind)[b.p]? with
    | some c => pure c
    | none => stop .outside) E _ b
  rw [hget]
  exact ⟨rfl, rfl⟩

/-- What is not the terminator can be passed. -/
theorem lt_of_peek_ne {p : Nat} (h : JsonReader.peek (text.drop p) ≠ 0) : p < text.length := by
  by_contra hle
  rw [List.drop_eq_nil_of_le (by omega)] at h
  exact h rfl

theorem lt_of_length_lt (text : List UInt8) {p q : Nat}
    (h : (text.drop q).length < (text.drop p).length) : p < q := by
  rw [List.length_drop, List.length_drop] at h
  omega

-- the loops are followed by induction on what is left of the text in front of the terminator
theorem wp_skipLoop {u : List UInt8} (hb : Within text.length b) (hu : text.drop b.p = u) :
    wp (skipLoop (u ++ 0 :: behind)) E
      (fun _ t => Moved text.length b t ∧ text.drop t.p = JsonReader.skip u) b := by
  induction u generalizing b with
  | nil => exact ⟨.refl hb, hu⟩
  | cons c u ih =>
    obtain ⟨hlt, hrest⟩ := lt_of_drop_eq_cons hu
    apply wp_ite
    · intro hc
      apply wp_bind (wp_go hb 1 hlt)
      rintro - t ⟨ht, hp⟩
      apply wp_mono (ih ht.1 (hp ▸ hrest)) (fun _ _ => id)
      rintro - v ⟨hv, hdrop⟩
      refine ⟨ht.trans hv, ?_⟩
      rw [hdrop, JsonReader.skip, JsonReader.skip, List.dropWhile_cons_of_pos (by simpa using hc)]
    · intro hc
      refine ⟨.refl hb, ?_⟩
      rw [hu, JsonReader.skip, List.dropWhile_cons_of_neg (by simpa using hc)]

theorem wp_skip (hb : Within text.length b) :
    wp (skip (text ++ 0 :: behind)) E
      (fun _ t => Moved text.length b t ∧ text.drop t.p = JsonReader.skip (text.drop b.p)) b := by
  apply wp_bind wp_curr
  rintro p t ⟨rfl, rfl⟩
  rw [drop_memory hb]
  exact wp_skipLoop hb rfl

theorem wp_strLoop {u : List UInt8} (hb : Within text.length b) (hu : text.drop b.p = u) :
    wp (strLoop (u ++ 0 :: behind)) E
      (fun outstr t => Moved text.length b t ∧ outstr = u.takeWhile (fun c => c ≠ 34 && c ≠ 0) ∧
        text.drop t.p = u.dropWhile fun c => c ≠ 34 && c ≠ 0) b := by
  induction u generalizing b with
  | nil => exact ⟨.refl hb, rfl, hu⟩
  | cons c u ih =>
    obtain ⟨hlt, hrest⟩ := lt_of_drop_eq_cons hu
    apply wp_ite
    · intro hc
      apply wp_bind (wp_go hb 1 hlt)
      rintro - t ⟨ht, hp⟩
      apply wp_bind (ih ht.1 (hp ▸ hrest))
      rintro outstr v ⟨hv, rfl, hdrop⟩
      refine ⟨ht.trans hv, ?_, ?_⟩
      · rw [List.takeWhile_cons_of_pos (by simpa using hc)]
      · rw [hdrop, List.dropWhile_cons_of_pos (by simpa using hc)]
    · intro hc
      refine ⟨.refl hb, ?_, ?_⟩
      · rw [List.takeWhile_cons_of_neg (by simpa using hc)]
      · rw [hu, List.dropWhile_cons_of_neg (by simpa using hc)]

/-- The string is that of the reader on the rest of the text. -/
theorem wp_readStr (hb : Within text.length b) :
    wp (readStr (text ++ 0 :: behind)) E
      (fun s t => Moved text.length b t ∧
        JsonReader.readStr (text.drop b.p) = s.map fun s => (s, text.drop t.p)) b := by
  apply wp_bind (wp_deref hb)
  rintro c t ⟨rfl, rfl⟩
  apply wp_ite
  · intro hquote
    have hlt : t.p < text.length := lt_of_peek_ne (hquote ▸ by decide)
    apply wp_bind (wp_go hb 1 hlt)
    rintro - v ⟨hv, hp⟩
    apply wp_bind wp_curr
    rintro q v' ⟨rfl, rfl⟩
    rw [drop_memory hv.1]
    have hrest : text.drop v'.p = JsonReader.go (text.drop t.p) 1 := by
      rw [hp, JsonReader.go, List.drop_drop]
    apply wp_bind (wp_strLoop hv.1 rfl)
    rintro outstr w ⟨hw, rfl, hdrop⟩
    apply wp_bind (wp_deref hw.1)
    rintro d w' ⟨rfl, rfl⟩
    have hread : JsonReader.readStr (text.drop t.p) =
        let outstr := (text.drop v'.p).takeWhile fun c => c ≠ 34 && c ≠ 0
        if outstr ≠ [] ∧ JsonReader.peek (text.drop w'.p) = 34 then
          some (outstr, JsonReader.go (text.drop w'.p) 1)
        else none := by
      rw [JsonReader.readStr, if_pos hquote, hdrop, hrest]
    apply wp_ite
    · intro hend
      have hlt' : w'.p < text.length := lt_of_peek_ne (hend.2 ▸ by decide)
      apply wp_bind (wp_go hw.1 1 hlt')
      rintro - x ⟨hx, hpx⟩
      refine ⟨(hv.trans hw).trans hx, ?_⟩
      rw [hread, if_pos hend, hpx, JsonReader.go, List.drop_drop]
      rfl
    · intro hend
      refine ⟨hv.trans hw, ?_⟩
      rw [hread, if_neg hend]
      rfl
  · intro hquote
    refine ⟨.refl hb, ?_⟩
    rw [JsonReader.readStr, if_neg hquote]
    rfl

theorem wp_minus (hb : Within text.length b) :
    wp (minus (text ++ 0 :: behind)) E
      (fun _ t => Moved text.length b t ∧ text.drop t.p =
        if JsonReader.peek (text.drop b.p) = 45 then JsonReader.go (text.drop b.p) 1
        else text.drop b.p) b := by
  apply wp_bind (wp_deref hb)
  rintro c t ⟨rfl, rfl⟩
  apply wp_ite
  · intro hminus
    have hlt : t.p < text.length := lt_of_peek_ne (hminus ▸ by decide)
    apply wp_mono (wp_go hb 1 hlt) (fun _ _ => id)
    rintro - v ⟨hv, hp⟩
    refine ⟨hv, ?_⟩
    rw [if_pos hminus, hp, JsonReader.go, List.drop_drop]
  · intro hminus
    exact ⟨.refl hb, by rw [if_neg hminus]⟩

theorem wp_numberLoop {u : List UInt8} {f : Bool} {k : Nat} (hb : Within text.length b)
    (hu : text.drop b.p = u) :
    wp (numberLoop (u ++ 0 :: behind) f k) E
      (fun r t => Moved text.length b t ∧
        JsonReader.scanNumber u f k = r.map fun r => (r.1, r.2, text.drop t.p)) b := by
  induction u generalizing b f k with
  | nil => exact ⟨.refl hb, by rw [hu]; rfl⟩
  | cons c u ih =>
    obtain ⟨hlt, hrest⟩ := lt_of_drop_eq_cons hu
    rw [JsonReader.scanNumber]
    apply wp_ite
    · intro hpoint
      rw [if_pos hpoint]
      cases f with
      | true => exact ⟨.refl hb, rfl⟩
      | false =>
        apply wp_bind (wp_go hb 1 hlt)
        rintro - t ⟨ht, hp⟩
        apply wp_mono (ih ht.1 (hp ▸ hrest)) (fun _ _ => id)
        rintro r v ⟨hv, hscan⟩
        exact ⟨ht.trans hv, hscan⟩
    · intro hpoint
      rw [if_neg hpoint]
      apply wp_ite
      · intro hdigit
        rw [if_pos hdigit]
        apply wp_bind (wp_go hb 1 hlt)
        rintro - t ⟨ht, hp⟩
        apply wp_mono (ih ht.1 (hp ▸ hrest)) (fun _ _ => id)
        rintro r v ⟨hv, hscan⟩
        exact ⟨ht.trans hv, hscan⟩
      · intro hdigit
        rw [if_neg hdigit]
        exact ⟨.refl hb, by rw [hu]; rfl⟩

/-- A word without a NUL stands in front of the terminator. -/
theorem prefix_memory_iff {w u : List UInt8} (hw : 0 ∉ w) :
    w <+: u ++ 0 :: behind ↔ w <+: u := by
  refine ⟨fun h => ?_, fun h => h.trans (List.prefix_append _ _)⟩
  rcases List.prefix_or_prefix_of_prefix h (List.prefix_append u (0 :: behind)) with h | hu
  · exact h
  · obtain ⟨v, rfl⟩ := hu
    rw [List.prefix_append_right_inj] at h
    cases v with
    | nil => rw [List.append_nil]
    | cons c v =>
      obtain ⟨rfl, -⟩ := List.cons_prefix_cons.mp h
      simp at hw

theorem wp_word {w : List UInt8} (hb : Within text.length b)
    (h : w <+: text.drop b.p) {α : Type} (a : α) :
    wp (do go w.length; return a) E
      (fun r t => Moved text.length b t ∧ r = a ∧ t.p = b.p + w.length) b := by
  have hlen := h.length_le
  rw [List.length_drop] at hlen
  have := hb.le
  apply wp_bind (wp_go hb w.length (by omega))
  exact fun _ t ⟨ht, hp⟩ => ⟨ht, rfl, hp⟩

end

/-! ## 5. The reader -/

section
variable {Float : Type} {stoi : List UInt8 → Option CInt} {stof : List UInt8 → Option Float}
  {text behind : List UInt8} {b : JsonBuff} {E : JsonStop → JsonBuff → Prop}

/-- Where a conversion throws, the program may stop. -/
def MayThrow (stoi : List UInt8 → Option CInt) (stof : List UInt8 → Option Float)
    (text : List UInt8) (E : JsonStop → JsonBuff → Prop) : Prop :=
  ∀ s t, stoi s = none ∨ stof s = none → Within text.length t → E .outOfRange t

/-- A read that gives a value has moved. -/
def Advances (n : Nat) (b : JsonBuff) (r : Option (JBaseObj Float)) (t : JsonBuff) : Prop :=
  Moved n b t ∧ (r ≠ none → b.p < t.p)

theorem wp_number (hE : MayThrow stoi stof text E) {isfloat : Bool} {pnum : List UInt8}
    (hb : Within text.length b) : wp (number stoi stof isfloat pnum) E (fun _ t => t = b) b := by
  apply wp_ite
  · intro _
    cases hfv : stof pnum with
    | none => exact hE pnum b (.inr hfv) hb
    | some fv => exact rfl
  · intro _
    cases hiv : stoi pnum with
    | none => exact hE pnum b (.inl hiv) hb
    | some iv => exact rfl

theorem wp_readBase (hE : MayThrow stoi stof text E) (hb : Within text.length b) :
    wp (readBase stoi stof (text ++ 0 :: behind)) E (Advances text.length b) b := by
  apply wp_bind wp_curr
  rintro p t ⟨rfl, rfl⟩
  rw [drop_memory hb]
  have hword : ∀ (w : List UInt8) (obj : JBaseObj Float), 0 ∉ w → w ≠ [] →
      w <+: text.drop t.p ++ 0 :: behind →
      wp (do go w.length; return some obj) E (Advances text.length t) t := by
    intro w obj hw hne h
    have hpos := List.length_pos_iff.mpr hne
    apply wp_mono (wp_word hb ((prefix_memory_iff hw).mp h) (some obj)) (fun _ _ => id)
    exact fun r v ⟨hv, _, hp⟩ => ⟨hv, fun _ => by omega⟩
  apply wp_ite (hword (ascii "null") .null (by decide) (by decide))
  intro _
  apply wp_ite (hword (ascii "false") (.bool false) (by decide) (by decide))
  intro _
  apply wp_ite (hword (ascii "true") (.bool true) (by decide) (by decide))
  intro _
  apply wp_bind (wp_minus hb)
  rintro - v ⟨hv, -⟩
  apply wp_bind wp_curr
  rintro q v' ⟨rfl, rfl⟩
  rw [drop_memory hv.1]
  apply wp_bind (wp_numberLoop hv.1 rfl)
  rintro r w ⟨hw, hscan⟩
  cases r with
  | none => exact ⟨hv.trans hw, fun h => absurd rfl h⟩
  | some r =>
    obtain ⟨isfloat, numpos⟩ := r
    have hlen := JsonReader.scanNumber_length hscan
    apply wp_ite
    · intro hpos
      -- a number has at least one digit
      apply wp_mono (wp_number hE hw.1) (fun _ _ => id)
      rintro obj w' rfl
      refine ⟨hv.trans hw, fun _ => ?_⟩
      exact Nat.lt_of_le_of_lt hv.2 (lt_of_length_lt text (by omega))
    · intro _
      apply wp_bind (wp_readStr hw.1)
      rintro s x ⟨hx, hstr⟩
      refine ⟨(hv.trans hw).trans hx, fun hs => ?_⟩
      cases s with
      | none => exact absurd rfl hs
      | some s =>
        -- a string has its quotes
        have hlt : w.p < x.p := by
          obtain ⟨hquoted, -⟩ := JsonReader.readStr_eq_some hstr
          apply lt_of_length_lt text
          rw [hquoted, JBaseObj.quoted, List.length_append, List.length_append]
          simp
        exact Nat.lt_of_le_of_lt (Nat.le_trans hv.2 hw.2) hlt

end

/-! ## 6. The recursion -/

section
variable {Float : Type} {text behind : List UInt8} {b t : JsonBuff} {E : JsonStop → JsonBuff → Prop}
  {m : Prog JsonStop JsonBuff (Option (JBaseObj Float))}

/-- What has moved before a read that gives a value has moved with it. -/
theorem Moved.advances (h : Moved text.length b t) (hm : wp m E (Advances text.length t) t) :
    wp m E (Advances text.length b) t :=
  wp_mono hm (fun _ _ => id) fun _ _ ⟨hu, hlt⟩ =>
    ⟨h.trans hu, fun hne => Nat.lt_of_le_of_lt h.2 (hlt hne)⟩

theorem Moved.fails (h : Moved text.length b t) :
    wp (pure none : Prog JsonStop JsonBuff (Option (JBaseObj Float))) E (Advances text.length b) t :=
  ⟨h, fun hne => absurd rfl hne⟩

/-- A read behind a character that has been passed. -/
theorem Moved.pass (h : Moved text.length b t) (hne : JsonReader.peek (text.drop t.p) ≠ 0)
    (hm : ∀ v, Within text.length v → v.p = t.p + 1 → wp m E (Advances text.length v) v) :
    wp (do go 1; m) E (Advances text.length b) t := by
  apply wp_bind (wp_go h.1 1 (lt_of_peek_ne hne))
  exact fun _ v ⟨hv, hp⟩ => (h.trans hv).advances (hm v hv.1 hp)

/-- A value behind a character that has been passed. -/
theorem Moved.close (h : Moved text.length b t) (hne : JsonReader.peek (text.drop t.p) ≠ 0)
    (obj : JBaseObj Float) : wp (do go 1; return some obj) E (Advances text.length b) t := by
  apply wp_bind (wp_go h.1 1 (lt_of_peek_ne hne))
  intro _ v ⟨hv, hp⟩
  have := h.2
  exact ⟨h.trans hv, fun _ => by omega⟩

theorem wp_openLoop (hb : Within text.length b) {close : UInt8} (hclose : close ≠ 0)
    (empty : JBaseObj Float) (hm : wp m E (Advances text.length b) b) :
    wp (openLoop (text ++ 0 :: behind) close empty m) E (Advances text.length b) b := by
  apply wp_bind (wp_deref hb)
  rintro c t ⟨rfl, rfl⟩
  refine wp_ite (fun hend => (Moved.refl hb).close (hend ▸ hclose) _) fun _ => ?_
  exact wp_ite (fun _ => (Moved.refl hb).fails) fun _ => hm

/-- After a value there is less left, with or without a comma. -/
theorem wp_closeLoop (hb : Moved text.length b t) (hlt : b.p < t.p) {close : UInt8}
    (hclose : close ≠ 0) (whole : JBaseObj Float)
    (hm : ∀ v, Within text.length v → b.p < v.p → wp m E (Advances text.length v) v) :
    wp (closeLoop (text ++ 0 :: behind) close whole m) E (Advances text.length b) t := by
  apply wp_bind (wp_skip hb.1)
  rintro - v ⟨hv, -⟩
  apply wp_bind (wp_deref hv.1)
  rintro c v ⟨rfl, rfl⟩
  have hbv := hb.trans hv
  have hlt' : b.p < v.p := Nat.lt_of_lt_of_le hlt hv.2
  apply wp_ite
  · intro hcomma
    apply hbv.pass (hcomma ▸ by decide)
    intro w hw hp
    exact hm w hw (by omega)
  intro _
  refine wp_ite (fun hend => hbv.close (hend ▸ hclose) _) fun _ => ?_
  refine wp_ite (fun _ => hbv.fails) fun _ => ?_
  exact hbv.advances (hm v hv.1 hlt')

end

section
variable {Float : Type} (stoi : List UInt8 → Option CInt) (stof : List UInt8 → Option Float)
  (text behind : List UInt8) (E : JsonStop → JsonBuff → Prop)

/-- The fuel is enough, or it may run out. -/
def Enough (need fuel : Nat) : Prop := need ≤ fuel ∨ ∀ t, Within text.length t → E .unfinished t

/-- With enough fuel a read ends, stays within the text and gives a value only behind where it began. -/
structure Ends (fuel : Nat) : Prop where
  value : ∀ b, Within text.length b → Enough text E (2 * (text.length - b.p) + 1) fuel →
    wp (reader stoi stof (text ++ 0 :: behind) fuel) E (Advances text.length b) b
  items : ∀ objs b, Within text.length b → Enough text E (2 * (text.length - b.p) + 2) fuel →
    wp (readItems stoi stof (text ++ 0 :: behind) fuel objs) E (Advances text.length b) b
  members : ∀ objs b, Within text.length b → Enough text E (2 * (text.length - b.p) + 2) fuel →
    wp (readMembers stoi stof (text ++ 0 :: behind) fuel objs) E (Advances text.length b) b

variable {stoi stof text behind E} {fuel : Nat} {b : JsonBuff}

theorem Ends.reader (ih : Ends stoi stof text behind E fuel)
    (hE : MayThrow stoi stof text E) (hb : Within text.length b)
    (hfuel : Enough text E (2 * (text.length - b.p) + 1) (fuel + 1)) :
    wp (reader stoi stof (text ++ 0 :: behind) (fuel + 1)) E (Advances text.length b) b := by
  rw [JsonCursor.reader]
  apply wp_bind (wp_skip hb)
  rintro - t ⟨ht, -⟩
  apply wp_bind (wp_deref ht.1)
  rintro c t ⟨rfl, rfl⟩
  have hle := ht.2
  -- behind a bracket there is less left of the text
  apply wp_ite
  · intro hopen
    apply ht.pass (hopen ▸ by decide)
    intro v hv hp
    have := hv.le
    exact wp_openLoop hv (by decide) _ (ih.items [] v hv (hfuel.imp_left fun h => by omega))
  intro _
  apply wp_ite
  · intro hopen
    apply ht.pass (hopen ▸ by decide)
    intro v hv hp
    have := hv.le
    exact wp_openLoop hv (by decide) _ (ih.members [] v hv (hfuel.imp_left fun h => by omega))
  · intro _
    exact ht.advances (wp_readBase hE ht.1)

theorem Ends.readItems (ih : Ends stoi stof text behind E fuel) {objs : List (JBaseObj Float)}
    (hb : Within text.length b) (hfuel : Enough text E (2 * (text.length - b.p) + 2) (fuel + 1)) :
    wp (readItems stoi stof (text ++ 0 :: behind) (fuel + 1) objs) E (Advances text.length b) b := by
  rw [JsonCursor.readItems]
  apply wp_bind (ih.value b hb (hfuel.imp_left fun h => by omega))
  rintro r t ⟨ht, hlt⟩
  cases r with
  | none => exact ht.fails
  | some obj =>
    have hlt := hlt (Option.some_ne_none obj)
    apply wp_closeLoop ht hlt (by decide)
    intro v hv hlt'
    have := hv.le
    exact ih.items _ v hv (hfuel.imp_left fun h => by omega)

theorem Ends.readMembers (ih : Ends stoi stof text behind E fuel)
    {objs : List (List UInt8 × JBaseObj Float)} (hb : Within text.length b)
    (hfuel : Enough text E (2 * (text.length - b.p) + 2) (fuel + 1)) :
    wp (readMembers stoi stof (text ++ 0 :: behind) (fuel + 1) objs) E
      (Advances text.length b) b := by
  rw [JsonCursor.readMembers]
  apply wp_bind (wp_skip hb)
  rintro - t ⟨ht, -⟩
  apply wp_bind (wp_deref ht.1)
  rintro c t ⟨rfl, rfl⟩
  refine wp_ite ?_ fun _ => ht.fails
  intro _
  apply wp_bind (wp_readStr ht.1)
  rintro key k ⟨hk, -⟩
  have hbk := ht.trans hk
  cases key with
  | none => exact hbk.fails
  | some s =>
    apply wp_bind (wp_deref hk.1)
    rintro c k ⟨rfl, rfl⟩
    apply wp_ite (fun _ => hbk.fails)
    intro hcolon
    have hne : JsonReader.peek (text.drop k.p) ≠ 0 := not_not.mp hcolon ▸ by decide
    apply wp_bind (wp_go hk.1 1 (lt_of_peek_ne hne))
    rintro - q ⟨hq, hpq⟩
    have hbq := hbk.trans hq
    have hlek := hbk.2
    have := hq.1.le
    apply wp_bind (ih.value q hq.1 (hfuel.imp_left fun h => by omega))
    rintro r u ⟨hu, hlt⟩
    cases r with
    | none => exact (hbq.trans hu).fails
    | some obj =>
      have hlt := hlt (Option.some_ne_none obj)
      have hlt' : b.p < u.p := Nat.lt_of_le_of_lt hbq.2 hlt
      apply wp_closeLoop (hbq.trans hu) hlt' (by decide)
      intro v hv hltv
      have := hv.le
      exact ih.members _ v hv (hfuel.imp_left fun h => by omega)

theorem ends (hE : MayThrow stoi stof text E) (fuel : Nat) : Ends stoi stof text behind E fuel := by
  induction fuel with
  | zero =>
    have hstop : ∀ b need, Within text.length b → Enough text E (need + 1) 0 →
        E .unfinished b := by
      intro b need hb h
      rcases h with h | h
      · omega
      · exact h b hb
    exact ⟨fun b hb h => hstop b _ hb h, fun _ b hb h => hstop b _ hb h,
      fun _ b hb h => hstop b _ hb h⟩
  | succ fuel ih =>
    exact ⟨fun b hb h => ih.reader hE hb h, fun objs b hb h => ih.readItems hb h,
      fun objs b hb h => ih.readMembers hb h⟩

theorem parser_moved (hE : MayThrow stoi stof text E) {fuel : Nat} (hb : Within text.length b)
    (hfuel : Enough text E (2 * (text.length - b.p) + 1) fuel) :
    wp (parser stoi stof (text ++ 0 :: behind) fuel) E (fun _ t => Moved text.length b t) b := by
  apply wp_bind ((ends hE fuel).value b hb hfuel)
  rintro r t ⟨ht, -⟩
  apply wp_bind (wp_skip ht.1)
  rintro - v ⟨hv, -⟩
  cases r with
  | none => exact ht.trans hv
  | some obj =>
    apply wp_bind (wp_deref hv.1)
    rintro c v ⟨rfl, rfl⟩
    exact wp_ite (fun _ => ht.trans hv) fun _ => ht.trans hv

/-- The position stays between the beginning of the text and its terminator and never goes back, the
reader ends, and a value is read only from at least one character. -/
theorem cursor_within (stoi : List UInt8 → CInt) (stof : List UInt8 → Float)
    (text behind : List UInt8) :
    (∀ fuel, 2 * text.length + 1 ≤ fuel → ∃ r t,
      parser (fun s => some (stoi s)) (fun s => some (stof s)) (text ++ 0 :: behind) fuel ⟨0, []⟩ =
          (.ok r, t) ∧
        (t.p :: t.former).Pairwise (· ≥ ·) ∧ ∀ q ∈ t.p :: t.former, q ≤ text.length) ∧
    ∀ fuel b obj t, Within text.length b →
      reader (fun s => some (stoi s)) (fun s => some (stof s)) (text ++ 0 :: behind) fuel b =
          (.ok (some obj), t) →
        b.p + 1 ≤ t.p := by
  constructor
  · intro fuel hfuel
    have hstart : Within text.length ⟨0, []⟩ := ⟨Nat.zero_le _, List.pairwise_singleton _ _⟩
    have hparser : wp (parser (fun s => some (stoi s)) (fun s => some (stof s))
        (text ++ 0 :: behind) fuel) (fun _ _ => False) (fun _ t => Moved text.length ⟨0, []⟩ t)
        ⟨0, []⟩ :=
      parser_moved (fun s t h _ => by simp at h) hstart (.inl hfuel)
    obtain ⟨r, t, hrun, ht, -⟩ := exists_of_wp hparser
    refine ⟨r, t, hrun, ht.descending, fun q hq => ?_⟩
    rcases List.mem_cons.mp hq with rfl | hq
    · exact ht.le
    · exact Nat.le_trans ((List.pairwise_cons.mp ht.descending).1 q hq) ht.le
  · intro fuel b obj t hb hrun
    have hends : Ends (fun s => some (stoi s)) (fun s => some (stof s)) text behind
        (fun _ _ => True) fuel :=
      ends (fun _ _ _ _ => trivial) fuel
    have hvalue := hends.value b hb (.inr fun _ _ => trivial)
    unfold wp at hvalue
    rw [hrun] at hvalue
    exact hvalue.2 (Option.some_ne_none obj)

end

/-- `[1,-.5]`, and the number that is read from index 1 of it. -/
theorem cursor_within_array :
    (∃ r t, parser (fun _ => some ⟨0, by decide⟩) (fun _ => some ())
        (ascii "[1,-.5]" ++ [0]) 15 ⟨0, []⟩ = (.ok r, t) ∧
      (t.p :: t.former).Pairwise (· ≥ ·) ∧ ∀ q ∈ t.p :: t.former, q ≤ 7) ∧
    ∃ t, reader (fun _ => some ⟨0, by decide⟩) (fun _ => some ())
        (ascii "[1,-.5]" ++ [0]) 15 ⟨1, []⟩ = (.ok (some (.int ⟨0, by decide⟩)), t) ∧ 2 ≤ t.p := by
  have h := cursor_within (fun _ => ⟨0, by decide⟩) (fun _ => ()) (ascii "[1,-.5]") []
  have hread : reader (fun _ => some ⟨0, by decide⟩) (fun _ => some ())
      (ascii "[1,-.5]" ++ [0]) 15 ⟨1, []⟩ = (.ok (some (.int ⟨0, by decide⟩)), ⟨2, [1]⟩) := rfl
  refine ⟨h.1 15 (by decide), _, hread, h.2 15 _ _ _ ⟨by decide, by decide⟩ hread⟩

end JsonCursor

end LuaServer
