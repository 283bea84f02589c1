import Mathlib.Data.List.Infix
import Mathlib.Data.List.TakeWhile

/-!
# Text — the C and C++ strings that the connections make of received bytes

The handshake of `WebSocketConnect` and the head search of `HttpConnect` both take the received
bytes for a C string and then look for a text in it.  Lines, fields and words are what the streams of
the library take from a text.
-/

namespace LuaServer

/-- The characters of a literal as bytes. -/
def ascii (s : String) : List UInt8 := s.toList.map fun c => UInt8.ofNat c.toNat

/-- The bytes up to the first NUL; without one the read goes past the storage. -/
def cString (mem : List UInt8) : Option (List UInt8) :=
  if 0 ∈ mem then some (mem.takeWhile (· ≠ 0)) else none

/-- `std::getline`: the line, and what the stream still has; none at its end. -/
def getline (stream : List UInt8) : Option (List UInt8 × List UInt8) :=
  if stream = [] then none
  else some (stream.takeWhile (· ≠ 10), (stream.dropWhile (· ≠ 10)).drop 1)

/-- `std::getline` with another delimiter. -/
def getlineTo (delim : UInt8) (stream : List UInt8) : Option (List UInt8 × List UInt8) :=
  if stream = [] then none
  else some (stream.takeWhile (· ≠ delim), (stream.dropWhile (· ≠ delim)).drop 1)

/-- `find` of a string or a view; none is `npos`. -/
def find (pattern : List UInt8) : List UInt8 → Option Nat
  | [] => if pattern = [] then some 0 else none
  | c :: cs => if pattern <+: c :: cs then some 0 else (find pattern cs).map (· + 1)

/-- `std::isspace`. -/
def isSpace (c : UInt8) : Bool := c = 32 ∨ 9 ≤ c ∧ c ≤ 13

/-- `ins >> value` on a stream with the text: its first word, or `value` as it was if there is none. -/
def extract (text value : List UInt8) : List UInt8 :=
  let rest := text.dropWhile isSpace
  if rest = [] then value else rest.takeWhile fun c => !isSpace c

/-! ## 1. C strings -/

theorem takeWhile_ne {c : UInt8} {bs : List UInt8} (h : c ∉ bs) (rest : List UInt8) :
    (bs ++ c :: rest).takeWhile (fun x => decide (x ≠ c)) = bs := by
  have hall : ∀ x ∈ bs, decide (x ≠ c) = true := by
    intro x hx
    rw [decide_eq_true_eq]
    rintro rfl
    exact h hx
  rw [List.takeWhile_append_of_pos hall]
  simp

theorem takeWhile_ne_self {c : UInt8} {bs : List UInt8} (h : c ∉ bs) :
    bs.takeWhile (fun x => decide (x ≠ c)) = bs := by
  apply List.takeWhile_eq_self_iff.mpr
  intro x hx
  rw [decide_eq_true_eq]
  rintro rfl
  exact h hx

theorem dropWhile_ne {c : UInt8} {bs : List UInt8} (h : c ∉ bs) (rest : List UInt8) :
    (bs ++ c :: rest).dropWhile (fun x => decide (x ≠ c)) = c :: rest := by
  have hsplit := List.takeWhile_append_dropWhile (p := fun x => decide (x ≠ c)) (l := bs ++ c :: rest)
  rw [takeWhile_ne h] at hsplit
  exact List.append_cancel_left hsplit

theorem cString_append {bs : List UInt8} (h : 0 ∉ bs) (rest : List UInt8) :
    cString (bs ++ 0 :: rest) = some bs := by
  rw [cString, if_pos (by simp), takeWhile_ne h]

theorem cString_zeros (bs : List UInt8) (k : Nat) :
    cString (bs ++ List.replicate k 0) =
      if k = 0 ∧ 0 ∉ bs then none else some (bs.takeWhile (· ≠ 0)) := by
  cases k with
  | zero =>
    rw [List.replicate_zero, List.append_nil, cString]
    by_cases h : 0 ∈ bs <;> simp [h]
  | succ k =>
    have htake : (bs ++ 0 :: List.replicate k 0).takeWhile (fun x => decide (x ≠ 0)) =
        bs.takeWhile (fun x => decide (x ≠ 0)) := by
      induction bs with
      | nil => rfl
      | cons c cs ih =>
        rw [List.cons_append, List.takeWhile_cons, List.takeWhile_cons, ih]
    rw [List.replicate_succ, cString, if_pos (by simp), if_neg (by simp), htake]

theorem cString_eq_none {bs : List UInt8} (h : 0 ∉ bs) : cString bs = none := if_neg h

/-! ## 2. Lines -/

section
variable {delim : UInt8}

theorem getlineTo_append {line : List UInt8} (h : delim ∉ line) (rest : List UInt8) :
    getlineTo delim (line ++ delim :: rest) = some (line, rest) := by
  rw [getlineTo, if_neg (by simp), takeWhile_ne h, dropWhile_ne h]
  rfl

theorem getlineTo_eq {stream : List UInt8} (hne : stream ≠ []) (h : delim ∉ stream) :
    getlineTo delim stream = some (stream, []) := by
  have hdrop : stream.dropWhile (fun x => decide (x ≠ delim)) = [] :=
    List.dropWhile_eq_nil_iff.mpr (List.takeWhile_eq_self_iff.mp (takeWhile_ne_self h))
  rw [getlineTo, if_neg hne, takeWhile_ne_self h, hdrop]
  rfl

end

theorem getline_append {line rest : List UInt8} (h : 10 ∉ line) :
    getline (line ++ 10 :: rest) = some (line, rest) :=
  getlineTo_append h rest

theorem getline_eq {stream : List UInt8} (hne : stream ≠ []) (h : 10 ∉ stream) :
    getline stream = some (stream, []) :=
  getlineTo_eq hne h

/-! ## 3. Finding a text -/

variable {pattern text : List UInt8}

/-- The first place at which the pattern stands. -/
theorem find_eq_some_iff {i : Nat} :
    find pattern text = some i ↔
      i ≤ text.length ∧ pattern <+: text.drop i ∧ ∀ j < i, ¬ pattern <+: text.drop j := by
  induction text generalizing i with
  | nil =>
    by_cases hp : pattern = []
    · subst hp
      simp only [find, if_true, Option.some.injEq, List.length_nil, List.drop_nil, Nat.le_zero]
      constructor
      · rintro rfl
        exact ⟨rfl, List.nil_prefix, fun j hj => absurd hj (Nat.not_lt_zero j)⟩
      · rintro ⟨rfl, -, -⟩
        rfl
    · simp [find, hp]
  | cons c cs ih =>
    -- a pattern at the very front is the first one; otherwise the places of the tail move by one
    by_cases hpre : pattern <+: c :: cs
    · rw [find, if_pos hpre, Option.some.injEq]
      constructor
      · rintro rfl
        exact ⟨Nat.zero_le _, hpre, fun j hj => absurd hj (Nat.not_lt_zero j)⟩
      · rintro ⟨-, -, hfirst⟩
        by_contra hne
        exact hfirst 0 (by omega) hpre
    · rw [find, if_neg hpre, Option.map_eq_some_iff]
      constructor
      · rintro ⟨k, hk, rfl⟩
        obtain ⟨hle, hat, hfirst⟩ := ih.mp hk
        refine ⟨by simpa using hle, hat, fun j hj => ?_⟩
        cases j with
        | zero => exact hpre
        | succ j => exact hfirst j (by omega)
      · rintro ⟨hle, hat, hfirst⟩
        cases i with
        | zero => exact absurd hat hpre
        | succ i =>
          refine ⟨i, ih.mpr ⟨by simpa using hle, hat, fun j hj => ?_⟩, rfl⟩
          exact hfirst (j + 1) (by omega)

theorem find_eq_none_iff :
    find pattern text = none ↔ ∀ i ≤ text.length, ¬ pattern <+: text.drop i := by
  induction text with
  | nil => by_cases hp : pattern = [] <;> simp [find, hp]
  | cons c cs ih =>
    by_cases hpre : pattern <+: c :: cs
    · rw [find, if_pos hpre]
      refine iff_of_false (by simp) fun h => h 0 (Nat.zero_le _) hpre
    · rw [find, if_neg hpre, Option.map_eq_none_iff, ih]
      constructor
      · intro h i hi
        cases i with
        | zero => exact hpre
        | succ i => exact h i (by simpa using hi)
      · intro h i hi
        exact h (i + 1) (by simpa using hi)

theorem find_isSome_iff : (∃ i, find pattern text = some i) ↔ pattern <:+: text := by
  constructor
  · rintro ⟨i, hi⟩
    obtain ⟨-, hat, -⟩ := find_eq_some_iff.mp hi
    exact hat.isInfix.trans (List.drop_suffix _ _).isInfix
  · intro h
    by_contra hnone
    obtain ⟨l, hl, hsuffix⟩ := List.infix_iff_prefix_suffix.mp h
    have hfind : find pattern text = none := by
      cases hf : find pattern text with
      | none => rfl
      | some i => exact absurd ⟨i, hf⟩ hnone
    rw [List.suffix_iff_eq_drop] at hsuffix
    exact find_eq_none_iff.mp hfind (text.length - l.length) (Nat.sub_le _ _) (hsuffix ▸ hl)

theorem find_le {i : Nat} (h : find pattern text = some i) :
    i + pattern.length ≤ text.length := by
  obtain ⟨hle, hat, -⟩ := find_eq_some_iff.mp h
  have hlen := hat.length_le
  rw [List.length_drop] at hlen
  omega

/-- A single character stands first behind all others. -/
theorem find_singleton (c : UInt8) (text : List UInt8) :
    find [c] text = if c ∈ text then some (text.takeWhile (· ≠ c)).length else none := by
  induction text with
  | nil => rfl
  | cons d text ih =>
    by_cases heq : d = c
    · subst heq
      simp [find]
    · have hne : ¬ c = d := fun h => heq h.symm
      rw [find, if_neg (by simpa using hne), ih]
      by_cases hmem : c ∈ text <;> simp [hmem, hne, heq]

theorem prefix_drop_take {i n : Nat} (h : pattern <+: text.drop i) (hn : i + pattern.length ≤ n) :
    pattern <+: (text.take n).drop i := by
  rw [List.prefix_iff_eq_take] at h
  rw [List.drop_take, List.prefix_iff_eq_take, List.take_take, Nat.min_eq_left (by omega)]
  exact h

theorem prefix_drop_of_take {i n : Nat} (h : pattern <+: (text.take n).drop i) :
    pattern <+: text.drop i := by
  rw [List.drop_take] at h
  exact h.trans (List.take_prefix _ _)

theorem find_take_eq_some {i n : Nat} (h : find pattern text = some i)
    (hn : i + pattern.length ≤ n) : find pattern (text.take n) = some i := by
  have hle := find_le h
  obtain ⟨-, hat, hfirst⟩ := find_eq_some_iff.mp h
  refine find_eq_some_iff.mpr ⟨?_, prefix_drop_take hat hn, fun j hj hpre => ?_⟩
  · rw [List.length_take]
    omega
  · exact hfirst j hj (prefix_drop_of_take hpre)

theorem find_take_eq_none {n : Nat} (h : find pattern text = none) :
    find pattern (text.take n) = none := by
  rw [find_eq_none_iff] at h ⊢
  intro i hi hpre
  rw [List.length_take] at hi
  exact h i (by omega) (prefix_drop_of_take hpre)

/-! ## 4. Words -/

theorem extract_nil (text : List UInt8) :
    extract text [] = (text.dropWhile isSpace).takeWhile fun c => !isSpace c := by
  rw [extract]
  split
  · next hrest => rw [hrest]; rfl
  · rfl

/-- The first word is the whole text, if that has been kept and has no white space. -/
theorem extract_take_eq_iff {text : List UInt8} {n : Nat} :
    extract (text.take n) [] = text ↔ text.length ≤ n ∧ ∀ c ∈ text, isSpace c = false := by
  rw [extract_nil]
  constructor
  · intro h
    refine ⟨?_, fun c hc => ?_⟩
    · have hprefix := (List.takeWhile_prefix (fun c => !isSpace c)
        (l := (text.take n).dropWhile isSpace)).length_le
      have hsuffix := (List.dropWhile_suffix isSpace (l := text.take n)).length_le
      rw [h] at hprefix
      rw [List.length_take] at hsuffix
      omega
    · rw [← h] at hc
      simpa using List.mem_takeWhile_imp hc
  · rintro ⟨hle, hall⟩
    have hdrop : text.dropWhile isSpace = text := by
      cases text with
      | nil => rfl
      | cons c cs => exact List.dropWhile_cons_of_neg (by simp [hall c List.mem_cons_self])
    rw [List.take_of_length_le hle, hdrop, List.takeWhile_eq_self_iff]
    intro c hc
    rw [hall c hc]
    rfl

theorem extract_eq_iff {text : List UInt8} :
    extract text [] = text ↔ ∀ c ∈ text, isSpace c = false := by
  have h : extract (text.take text.length) [] = text ↔ _ := extract_take_eq_iff
  rwa [List.take_length, and_iff_right (Nat.le_refl _)] at h

/-! ## 5. A text cut in two ways -/

section
variable {α : Type*} {a b l r : List α} {n : Nat}

theorem take_eq_of_append_eq (h : a ++ b = l ++ r) (ha : n ≤ a.length) (hl : n ≤ l.length) :
    a.take n = l.take n := by
  have heq := congrArg (List.take n) h
  rwa [List.take_append_of_le_length ha, List.take_append_of_le_length hl] at heq

theorem drop_append_eq_of_append_eq (h : a ++ b = l ++ r) (ha : n ≤ a.length) (hl : n ≤ l.length) :
    a.drop n ++ b = l.drop n ++ r := by
  have heq := congrArg (List.drop n) h
  rwa [List.drop_append_of_le_length ha, List.drop_append_of_le_length hl] at heq

end

end LuaServer
