import LuaServer.Utils.Json

/-!
# JsonReader — the tree of a text

The reader goes over a C string: a position is the list of the bytes from it on, and a NUL ends the
text as the end of the list does.  Arrays and objects are read by loops that go on without a comma
as well, and `reader`, `readArray` and `readObj` call each other, so they take fuel; with
`2 * length + 1` of it they never run out.

`std::stof` is a parameter: the value of a text that `strtof` matches as a whole.
-/

open Reasoning

namespace LuaServer

/-- What a read gives: a tree and the position behind it, `nullptr`, or the exception of `stoi` and
`stof`. -/
inductive JsonRead (Float : Type)
  | obj (value : JBaseObj Float) (rest : List UInt8)
  | nullptr
  | outOfRange
  -- out of fuel
  | unfinished

namespace JsonReader

/-! ## 1. Positions and tokens -/

/-- `*p`. -/
def peek (p : List UInt8) : UInt8 := p.headD 0

/-- `go(len)`. -/
def go (p : List UInt8) (len : Nat) : List UInt8 := p.drop len

/-- `skip`. -/
def skip (p : List UInt8) : List UInt8 := p.dropWhile fun c => c ≠ 0 && c ≤ 32

/-- The string and the position behind it; none if it is empty or does not end. -/
def readStr (p : List UInt8) : Option (List UInt8 × List UInt8) :=
  if peek p = 34 then
    let ps := go p 1
    let outstr := ps.takeWhile fun c => c ≠ 34 && c ≠ 0
    let rest := ps.dropWhile fun c => c ≠ 34 && c ≠ 0
    if outstr ≠ [] ∧ peek rest = 34 then some (outstr, go rest 1) else none
  else none

/-- The loop over digits and points: `isfloat`, `numpos` and the position; none at a second
point. -/
def scanNumber : List UInt8 → Bool → Nat → Option (Bool × Nat × List UInt8)
  | [], isfloat, numpos => some (isfloat, numpos, [])
  | c :: p, isfloat, numpos =>
    if c = 46 then if isfloat then none else scanNumber p true numpos
    else if isDigit c then scanNumber p isfloat (numpos + 1)
    else some (isfloat, numpos, c :: p)

/-- `std::stoi`, for a text that begins with a sign or a digit; none is `std::out_of_range`. -/
def stoi (pnum : List UInt8) : Option CInt :=
  let value : Int :=
    if peek pnum = 45 then -ofNumeral ((go pnum 1).takeWhile isDigit)
    else ofNumeral (pnum.takeWhile isDigit)
  if h : -2 ^ 31 ≤ value ∧ value < 2 ^ 31 then some ⟨value, h⟩ else none

/-- The exponent that `strtof` finds behind the digits. -/
def exponent : List UInt8 → List UInt8
  | [] => []
  | c :: p =>
    if c = 101 ∨ c = 69 then
      let sign := if peek p = 43 ∨ peek p = 45 then [peek p] else []
      let digits := (go p sign.length).takeWhile isDigit
      if digits = [] then [] else c :: sign ++ digits
    else []

/-! ## 2. Values -/

variable {Float : Type} (stof : List UInt8 → Option Float)

/-- `pnum` is where the number begins and `str` where the loop over it has stopped. -/
def number (isfloat : Bool) (pnum str : List UInt8) : JsonRead Float :=
  if isfloat then
    match stof (pnum.take (pnum.length - str.length) ++ exponent str) with
    | some fv => .obj (.float fv) str
    | none => .outOfRange
  else
    match stoi pnum with
    | some iv => .obj (.int iv) str
    | none => .outOfRange

def readBase (p : List UInt8) : JsonRead Float :=
  if ascii "null" <+: p then .obj .null (go p 4)
  else if ascii "false" <+: p then .obj (.bool false) (go p 5)
  else if ascii "true" <+: p then .obj (.bool true) (go p 4)
  else
    match scanNumber (if peek p = 45 then go p 1 else p) false 0 with
    | none => .nullptr
    | some (isfloat, numpos, str) =>
      if numpos ≠ 0 then number stof isfloat p str
      else
        match readStr str with
        | some (s, rest) => .obj (.str s) rest
        | none => .nullptr

/-! ## 3. Arrays and objects -/

/-- The condition of the loop for the first time; `items` reads from `parser_pos` on. -/
def readArray (items : List UInt8 → JsonRead Float) (p : List UInt8) : JsonRead Float :=
  if peek p = 93 then .obj (.array []) (go p 1)
  else if peek p = 0 then .nullptr
  else items p

def readObj (members : List UInt8 → JsonRead Float) (p : List UInt8) : JsonRead Float :=
  if peek p = 125 then .obj (.obj []) (go p 1)
  else if peek p = 0 then .nullptr
  else members p

mutual

def reader : Nat → List UInt8 → JsonRead Float
  | 0, _ => .unfinished
  | fuel + 1, p =>
    let p := skip p
    if peek p = 91 then readArray (readItems fuel []) (go p 1)
    else if peek p = 123 then readObj (readMembers fuel []) (go p 1)
    else readBase stof p

/-- `readArray` from `parser_pos` on: one element, and what follows. -/
def readItems : Nat → List (JBaseObj Float) → List UInt8 → JsonRead Float
  | 0, _, _ => .unfinished
  | fuel + 1, objs, p =>
    match reader fuel p with
    | .obj value rest =>
      let objs := objs ++ [value]
      let pstr := skip rest
      if peek pstr = 44 then readItems fuel objs (go pstr 1)
      -- the condition of the loop again
      else if peek pstr = 93 then .obj (.array objs) (go pstr 1)
      else if peek pstr = 0 then .nullptr
      else readItems fuel objs pstr
    | r => r

/-- `readObj` from `parser_pos` on: one member, and what follows. -/
def readMembers : Nat → List (List UInt8 × JBaseObj Float) → List UInt8 → JsonRead Float
  | 0, _, _ => .unfinished
  | fuel + 1, objs, p =>
    match readStr (skip p) with
    | none => .nullptr
    | some (s, colon) =>
      if peek colon ≠ 58 then .nullptr
      else
        match reader fuel (go colon 1) with
        | .obj value rest =>
          let objs := assign s value objs
          let pstr := skip rest
          if peek pstr = 44 then readMembers fuel objs (go pstr 1)
          else if peek pstr = 125 then .obj (.obj objs) (go pstr 1)
          else if peek pstr = 0 then .nullptr
          else readMembers fuel objs pstr
        | r => r

end

def parser (text : List UInt8) : JsonRead Float :=
  match reader stof (2 * text.length + 1) text with
  | .obj value rest => if peek (skip rest) ≠ 0 then .nullptr else .obj value (skip rest)
  | r => r

/-- The parser accepts the text and gives the tree. -/
def Parses (text : List UInt8) (t : JBaseObj Float) : Prop := ∃ rest, parser stof text = .obj t rest

/-! ## 4. What a read takes and gives -/

theorem skip_length_le (p : List UInt8) : (skip p).length ≤ p.length :=
  (List.dropWhile_suffix _).length_le

theorem go_length_lt {p : List UInt8} {c : UInt8} (h : peek p = c) (hc : c ≠ 0) {len : Nat}
    (hlen : 0 < len) : (go p len).length < p.length := by
  cases p with
  | nil => exact absurd h.symm hc
  | cons d p =>
    rw [go, List.length_drop, List.length_cons]
    omega

/-- A text that `readStr` can read. -/
def legible (s : List UInt8) : Bool := s ≠ [] && !s.contains 34 && !s.contains 0

theorem legible_iff {s : List UInt8} : legible s = true ↔ s ≠ [] ∧ 34 ∉ s ∧ 0 ∉ s := by
  simp [legible, and_assoc]

theorem readStr_eq_some {p s rest : List UInt8} (h : readStr p = some (s, rest)) :
    p = JBaseObj.quoted s ++ rest ∧ legible s = true := by
  cases p with
  | nil => cases h
  | cons c p =>
    rw [readStr] at h
    obtain ⟨hc, h⟩ := Option.ite_none_right_eq_some.mp h
    obtain ⟨⟨hne, hquote⟩, h⟩ := Option.ite_none_right_eq_some.mp h
    cases h
    obtain rfl : c = 34 := hc
    have hsplit := List.takeWhile_append_dropWhile (p := fun c : UInt8 => c ≠ 34 && c ≠ 0) (l := p)
    have hall : ∀ x ∈ p.takeWhile (fun c : UInt8 => c ≠ 34 && c ≠ 0), (x ≠ 34 && x ≠ 0) = true :=
      fun x hx => List.mem_takeWhile_imp (p := fun c : UInt8 => c ≠ 34 && c ≠ 0) hx
    refine ⟨?_, legible_iff.mpr ⟨hne, fun hmem => ?_, fun hmem => ?_⟩⟩
    · change 34 :: p = 34 :: p.takeWhile _ ++ [34] ++ (p.dropWhile _).drop 1
      cases hrest : p.dropWhile (fun c : UInt8 => c ≠ 34 && c ≠ 0) with
      | nil =>
        change peek (p.dropWhile _) = 34 at hquote
        rw [hrest] at hquote
        exact absurd hquote (by decide)
      | cons d rest =>
        change peek (p.dropWhile _) = 34 at hquote
        rw [hrest] at hquote hsplit
        obtain rfl : d = 34 := hquote
        rw [List.cons_append, List.cons_append, List.append_assoc]
        exact congrArg _ hsplit.symm
    · exact absurd (hall 34 hmem) (by decide)
    · exact absurd (hall 0 hmem) (by decide)

theorem scanNumber_length {p str : List UInt8} {f isfloat : Bool} {n numpos : Nat}
    (h : scanNumber p f n = some (isfloat, numpos, str)) : str.length + numpos ≤ p.length + n := by
  induction p generalizing f n with
  | nil =>
    cases h
    rfl
  | cons c p ih =>
    rw [scanNumber] at h
    rw [List.length_cons]
    split at h
    · split at h
      · cases h
      · have := ih h
        omega
    · split at h
      · have := ih h
        omega
      · cases h
        rfl

/-- What the reader puts into a tree: texts that it could read, and maps in order. -/
def nodeRead {Float : Type} : JBaseObj Float → Bool
  | .str sv => legible sv
  | .obj maps => maps.all (fun e => legible e.1) && decide (SortedKeys maps)
  | _ => true

theorem readBase_obj {p rest : List UInt8} {t : JBaseObj Float}
    (h : readBase stof p = .obj t rest) : rest.length < p.length ∧ t.all nodeRead = true := by
  have hword : ∀ w : List UInt8, w ≠ [] → w <+: p → (go p w.length).length < p.length := by
    intro w hw hpre
    have := hpre.length_le
    have := List.length_pos_iff.mpr hw
    rw [go, List.length_drop]
    omega
  unfold readBase at h
  split at h
  · cases h
    exact ⟨hword (ascii "null") (by decide) ‹_›, rfl⟩
  split at h
  · cases h
    exact ⟨hword (ascii "false") (by decide) ‹_›, rfl⟩
  split at h
  · cases h
    exact ⟨hword (ascii "true") (by decide) ‹_›, rfl⟩
  have hsign : (if peek p = 45 then go p 1 else p).length ≤ p.length := by
    split
    · exact (go_length_lt ‹_› (by decide) Nat.one_pos).le
    · exact le_refl _
  split at h
  · cases h
  · rename_i isfloat numpos str hscan
    have hlen := scanNumber_length hscan
    split at h
    · -- a number has at least one digit
      unfold number at h
      split at h
      · split at h
        · cases h
          exact ⟨by omega, rfl⟩
        · cases h
      · split at h
        · cases h
          exact ⟨by omega, rfl⟩
        · cases h
    · split at h
      · rename_i hstr
        cases h
        obtain ⟨hp, hs⟩ := readStr_eq_some hstr
        have hlt : rest.length < str.length := by
          rw [hp, JBaseObj.quoted, List.length_append, List.length_append]
          simp
        exact ⟨by omega, hs⟩
      · cases h

/-- The entries of an object that is being read. -/
structure MembersRead (objs : List (List UInt8 × JBaseObj Float)) : Prop where
  sorted : SortedKeys objs
  legible : ∀ e ∈ objs, legible e.1 = true
  values : ∀ e ∈ objs, e.2.all nodeRead = true

theorem MembersRead.all {objs : List (List UInt8 × JBaseObj Float)} (h : MembersRead objs) :
    (JBaseObj.obj objs).all nodeRead = true := by
  refine JBaseObj.all_obj_iff.mpr ⟨?_, h.values⟩
  rw [nodeRead, Bool.and_eq_true, List.all_eq_true]
  exact ⟨h.legible, decide_eq_true h.sorted⟩

theorem MembersRead.assign {objs : List (List UInt8 × JBaseObj Float)} (h : MembersRead objs)
    {s : List UInt8} (hs : JsonReader.legible s = true) {value : JBaseObj Float}
    (hv : value.all nodeRead = true) : MembersRead (assign s value objs) where
  sorted := assign_sortedKeys h.sorted s value
  legible e he := by
    rcases mem_assign he with rfl | he
    · exact hs
    · exact h.legible e he
  values e he := by
    rcases mem_assign he with rfl | he
    · exact hv
    · exact h.values e he

/-- A read with this fuel takes at least one byte and gives a tree of texts that it could read. -/
structure ReadsWell (fuel : Nat) : Prop where
  value : ∀ {p rest : List UInt8} {t : JBaseObj Float}, reader stof fuel p = .obj t rest →
    rest.length < p.length ∧ t.all nodeRead = true
  items : ∀ {objs : List (JBaseObj Float)} {p rest : List UInt8} {t : JBaseObj Float},
    (∀ x ∈ objs, x.all nodeRead = true) → readItems stof fuel objs p = .obj t rest →
      rest.length < p.length ∧ t.all nodeRead = true
  members : ∀ {objs : List (List UInt8 × JBaseObj Float)} {p rest : List UInt8}
    {t : JBaseObj Float}, MembersRead objs → readMembers stof fuel objs p = .obj t rest →
      rest.length < p.length ∧ t.all nodeRead = true

variable {stof} in
theorem ReadsWell.reader {fuel : Nat} (ih : ReadsWell stof fuel) {p rest : List UInt8}
    {t : JBaseObj Float} (h : reader stof (fuel + 1) p = .obj t rest) :
    rest.length < p.length ∧ t.all nodeRead = true := by
  rw [JsonReader.reader] at h
  have hskip := skip_length_le p
  split at h
  · have hgo := go_length_lt ‹peek (skip p) = 91› (by decide) Nat.one_pos
    unfold readArray at h
    split at h
    · cases h
      have := go_length_lt ‹peek (go (skip p) 1) = 93› (by decide) Nat.one_pos
      exact ⟨by omega, rfl⟩
    split at h
    · cases h
    · obtain ⟨hlen, ht⟩ := ih.items (by simp) h
      exact ⟨by omega, ht⟩
  split at h
  · have hgo := go_length_lt ‹peek (skip p) = 123› (by decide) Nat.one_pos
    unfold readObj at h
    split at h
    · cases h
      have := go_length_lt ‹peek (go (skip p) 1) = 125› (by decide) Nat.one_pos
      exact ⟨by omega, rfl⟩
    split at h
    · cases h
    · obtain ⟨hlen, ht⟩ := ih.members ⟨List.Pairwise.nil, by simp, by simp⟩ h
      exact ⟨by omega, ht⟩
  · obtain ⟨hlen, ht⟩ := readBase_obj stof h
    exact ⟨by omega, ht⟩

variable {stof} in
theorem ReadsWell.readItems {fuel : Nat} (ih : ReadsWell stof fuel)
    {objs : List (JBaseObj Float)} {p rest : List UInt8} {t : JBaseObj Float}
    (hobjs : ∀ x ∈ objs, x.all nodeRead = true)
    (h : readItems stof (fuel + 1) objs p = .obj t rest) :
    rest.length < p.length ∧ t.all nodeRead = true := by
  rw [JsonReader.readItems] at h
  cases hv : JsonReader.reader stof fuel p with
  | obj value q =>
    obtain ⟨hlen, hvalue⟩ := ih.value hv
    have hskip := skip_length_le q
    have hobjs' : ∀ x ∈ objs ++ [value], x.all nodeRead = true := by
      intro x hx
      rcases List.mem_append.mp hx with hx | hx
      · exact hobjs x hx
      · exact List.mem_singleton.mp hx ▸ hvalue
    simp only [hv] at h
    split at h
    · have hgo := go_length_lt ‹peek (skip q) = 44› (by decide) Nat.one_pos
      obtain ⟨hrest, ht⟩ := ih.items hobjs' h
      exact ⟨by omega, ht⟩
    split at h
    · cases h
      have := go_length_lt ‹peek (skip q) = 93› (by decide) Nat.one_pos
      exact ⟨by omega, JBaseObj.all_array_iff.mpr ⟨rfl, hobjs'⟩⟩
    split at h
    · cases h
    · obtain ⟨hrest, ht⟩ := ih.items hobjs' h
      exact ⟨by omega, ht⟩
  | nullptr | outOfRange | unfinished =>
    rw [hv] at h
    cases h

variable {stof} in
theorem ReadsWell.readMembers {fuel : Nat} (ih : ReadsWell stof fuel)
    {objs : List (List UInt8 × JBaseObj Float)} {p rest : List UInt8} {t : JBaseObj Float}
    (hobjs : MembersRead objs) (h : readMembers stof (fuel + 1) objs p = .obj t rest) :
    rest.length < p.length ∧ t.all nodeRead = true := by
  rw [JsonReader.readMembers] at h
  have hskip := skip_length_le p
  split at h
  · cases h
  rename_i s colon hstr
  obtain ⟨hp, hs⟩ := readStr_eq_some hstr
  have hcolon : colon.length ≤ (skip p).length := by
    rw [hp, List.length_append]
    omega
  split at h
  · cases h
  rename_i hne
  have hgo := go_length_lt (not_not.mp hne) (by decide) Nat.one_pos
  cases hv : JsonReader.reader stof fuel (go colon 1) with
  | obj value q =>
    obtain ⟨hlen, hvalue⟩ := ih.value hv
    have hskip := skip_length_le q
    have hobjs' := hobjs.assign hs hvalue
    simp only [hv] at h
    split at h
    · have hgo := go_length_lt ‹peek (skip q) = 44› (by decide) Nat.one_pos
      obtain ⟨hrest, ht⟩ := ih.members hobjs' h
      exact ⟨by omega, ht⟩
    split at h
    · cases h
      have := go_length_lt ‹peek (skip q) = 125› (by decide) Nat.one_pos
      exact ⟨by omega, hobjs'.all⟩
    split at h
    · cases h
    · obtain ⟨hrest, ht⟩ := ih.members hobjs' h
      exact ⟨by omega, ht⟩
  | nullptr | outOfRange | unfinished =>
    simp only [hv] at h
    cases h

theorem readsWell (fuel : Nat) : ReadsWell stof fuel := by
  induction fuel with
  | zero =>
    refine ⟨fun h => ?_, fun _ h => ?_, fun _ h => ?_⟩
    · rw [reader] at h
      cases h
    · rw [readItems] at h
      cases h
    · rw [readMembers] at h
      cases h
  | succ fuel ih => exact ⟨ih.reader, ih.readItems, ih.readMembers⟩

/-! ## 5. The fuel is enough -/

structure Finishes (fuel : Nat) : Prop where
  value : ∀ p : List UInt8, 2 * p.length + 1 ≤ fuel → reader stof fuel p ≠ .unfinished
  items : ∀ (objs : List (JBaseObj Float)) (p : List UInt8), 2 * p.length + 2 ≤ fuel →
    readItems stof fuel objs p ≠ .unfinished
  members : ∀ (objs : List (List UInt8 × JBaseObj Float)) (p : List UInt8),
    2 * p.length + 2 ≤ fuel → readMembers stof fuel objs p ≠ .unfinished

theorem readBase_ne_unfinished (p : List UInt8) : readBase stof p ≠ .unfinished := by
  unfold readBase
  split
  · nofun
  split
  · nofun
  split
  · nofun
  split
  · nofun
  split
  · unfold number
    split
    · split <;> nofun
    · split <;> nofun
  · split <;> nofun

variable {stof} in
theorem Finishes.reader {fuel : Nat} (ih : Finishes stof fuel) (p : List UInt8)
    (hp : 2 * p.length + 1 ≤ fuel + 1) : reader stof (fuel + 1) p ≠ .unfinished := by
  rw [JsonReader.reader]
  have hskip := skip_length_le p
  split
  · have hgo := go_length_lt ‹peek (skip p) = 91› (by decide) Nat.one_pos
    unfold readArray
    split
    · nofun
    split
    · nofun
    · exact ih.items _ _ (by omega)
  split
  · have hgo := go_length_lt ‹peek (skip p) = 123› (by decide) Nat.one_pos
    unfold readObj
    split
    · nofun
    split
    · nofun
    · exact ih.members _ _ (by omega)
  · exact readBase_ne_unfinished stof _

variable {stof} in
theorem Finishes.readItems {fuel : Nat} (ih : Finishes stof fuel) (objs : List (JBaseObj Float))
    (p : List UInt8) (hp : 2 * p.length + 2 ≤ fuel + 1) :
    readItems stof (fuel + 1) objs p ≠ .unfinished := by
  rw [JsonReader.readItems]
  cases hv : JsonReader.reader stof fuel p with
  | obj value q =>
    obtain ⟨hlen, -⟩ := (readsWell stof fuel).value hv
    have hskip := skip_length_le q
    simp only
    split
    · have hgo := go_length_lt ‹peek (skip q) = 44› (by decide) Nat.one_pos
      exact ih.items _ _ (by omega)
    split
    · nofun
    split
    · nofun
    · exact ih.items _ _ (by omega)
  | nullptr | outOfRange => nofun
  | unfinished => exact absurd hv (ih.value p (by omega))

variable {stof} in
theorem Finishes.readMembers {fuel : Nat} (ih : Finishes stof fuel)
    (objs : List (List UInt8 × JBaseObj Float)) (p : List UInt8)
    (hp : 2 * p.length + 2 ≤ fuel + 1) : readMembers stof (fuel + 1) objs p ≠ .unfinished := by
  rw [JsonReader.readMembers]
  have hskip := skip_length_le p
  split
  · nofun
  rename_i s colon hstr
  have hcolon : colon.length ≤ (skip p).length := by
    rw [(readStr_eq_some hstr).1, List.length_append]
    omega
  split
  · nofun
  rename_i hne
  have hgo := go_length_lt (not_not.mp hne) (by decide) Nat.one_pos
  cases hv : JsonReader.reader stof fuel (go colon 1) with
  | obj value q =>
    obtain ⟨hlen, -⟩ := (readsWell stof fuel).value hv
    have hskip := skip_length_le q
    simp only
    split
    · have hgo := go_length_lt ‹peek (skip q) = 44› (by decide) Nat.one_pos
      exact ih.members _ _ (by omega)
    split
    · nofun
    split
    · nofun
    · exact ih.members _ _ (by omega)
  | nullptr | outOfRange => nofun
  | unfinished => exact absurd hv (ih.value _ (by omega))

theorem finishes (fuel : Nat) : Finishes stof fuel := by
  induction fuel with
  | zero => exact ⟨fun _ h => by omega, fun _ _ h => by omega, fun _ _ h => by omega⟩
  | succ fuel ih => exact ⟨ih.reader, ih.readItems, ih.readMembers⟩

theorem parser_ne_unfinished (text : List UInt8) : parser stof text ≠ .unfinished := by
  unfold parser
  cases h : reader stof (2 * text.length + 1) text with
  | obj value rest =>
    simp only
    split <;> nofun
  | nullptr | outOfRange => nofun
  | unfinished => exact absurd h ((finishes stof _).value text (le_refl _))

end JsonReader

end LuaServer
