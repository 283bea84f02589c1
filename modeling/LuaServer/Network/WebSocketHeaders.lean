import LuaServer.Network.WebSocketConnect

/-!
# WebSocketHeaders — what the handshake parser reads

`parseHandshake` gets the active region of the read buffer but wraps its start as a C string, so
that a region without a NUL is read on into whatever an earlier read left there.  Inside the text,
the header loop computes an index and a substring from each line; only an empty line takes them out
of range.
-/

namespace LuaServer

/-! ## 1. Indices and lengths of one line -/

/-- `find` as a `size_t` read with its sign: `npos` is -1. -/
def findPos (pattern text : List UInt8) : Int :=
  match find pattern text with
  | some pos => pos
  | none => -1

/-- Start and length of the value in a line that ends in CR: `pos + 2` and
`line.size() - 1 - (pos + 2)`. -/
def valueSpan (line : List UInt8) : Int × Int :=
  (findPos (ascii ": ") line + 2, (line.length : Int) - 1 - (findPos (ascii ": ") line + 2))

theorem headerField_value (line : List UInt8) :
    (headerField line).2 =
      (line.drop (valueSpan line).1.toNat).take (valueSpan line).2.toNat := by
  have hnat : ∀ start : Nat, ((line.length : Int) - 1 - start).toNat = line.length - 1 - start := by
    intro start
    omega
  unfold headerField valueSpan findPos
  cases find (ascii ": ") line with
  | none => exact congrArg (fun n => (line.drop 1).take n) (hnat 1).symm
  | some pos => exact congrArg (fun n => (line.drop (pos + 2)).take n) (hnat (pos + 2)).symm

/-- What the header loop computes for a line stays inside the line. -/
structure LineInRange (line : List UInt8) : Prop where
  -- `line[line.size() - 1]`
  last : line ≠ [13] → 0 ≤ (line.length : Int) - 1
  -- `std::string(line.c_str(), 0, pos)`
  name : line ≠ [13] → line.getLast? = some 13 → findPos (ascii ": ") line ≤ line.length
  -- `std::string(line.c_str() + (pos + 2), line.size() - 1 - (pos + 2))`
  value : line ≠ [13] → line.getLast? = some 13 → 0 ≤ (valueSpan line).1 ∧
    0 ≤ (valueSpan line).2 ∧ (valueSpan line).1 + (valueSpan line).2 ≤ line.length

theorem two_le_length {line : List UInt8} (hcr : line ≠ [13]) (hlast : line.getLast? = some 13) :
    2 ≤ line.length := by
  cases line with
  | nil => cases hlast
  | cons c cs =>
    cases cs with
    | nil => exact absurd (congrArg (fun x => [x]) (Option.some.inj hlast)) hcr
    | cons d ds =>
      rw [List.length_cons, List.length_cons]
      omega

/-- The blank of the separator is not the CR at the end. -/
theorem separator_lt {line : List UInt8} {pos : Nat} (h : find (ascii ": ") line = some pos)
    (hlast : line.getLast? = some 13) : pos + 2 < line.length := by
  have hle : pos + 2 ≤ line.length := find_le h
  have hat := (find_eq_some_iff.mp h).2.1
  by_contra hge
  have hlen : (line.drop pos).length ≤ (ascii ": ").length := by
    rw [List.length_drop]
    show line.length - pos ≤ 2
    omega
  have htail : ascii ": " = line.drop pos := hat.eq_of_length_le hlen
  have hblank : (line.drop pos).getLast? = some 32 := htail ▸ rfl
  rw [List.getLast?_drop, if_neg (by omega), hlast] at hblank
  exact absurd hblank (by decide)

theorem lineInRange_iff (line : List UInt8) : LineInRange line ↔ line ≠ [] := by
  constructor
  · intro h hnil
    have hlast := h.last (by rw [hnil]; decide)
    rw [hnil] at hlast
    exact absurd hlast (by decide)
  · intro hne
    have hpos := List.length_pos_of_ne_nil hne
    have hvalue : line ≠ [13] → line.getLast? = some 13 →
        -1 ≤ findPos (ascii ": ") line ∧ findPos (ascii ": ") line + 3 ≤ line.length := by
      intro hcr hlast
      have htwo := two_le_length hcr hlast
      unfold findPos
      cases hfind : find (ascii ": ") line with
      | none =>
        simp only
        omega
      | some pos =>
        have hlt := separator_lt hfind hlast
        simp only
        omega
    constructor
    · intro _
      omega
    · intro hcr hlast
      have h := hvalue hcr hlast
      omega
    · intro hcr hlast
      have h := hvalue hcr hlast
      simp only [valueSpan]
      omega

/-! ## 2. The lines of a request -/

/-- The lines that a loop over `std::getline` sees. -/
def lines : Nat → List UInt8 → List (List UInt8)
  | 0, _ => []
  | fuel + 1, stream =>
    match getline stream with
    | none => []
    | some (line, rest) => line :: lines fuel rest

/-- The lines that the header loop of `parseHandshake` goes through. -/
def requestLines (pData : List UInt8) (len : Nat) : List (List UInt8) :=
  if len < 2 then []
  else
    match (cString pData).bind getline with
    | none => []
    | some (line, rest) => if ¬ ascii "GET" <+: line then [] else lines rest.length rest

theorem headerLoop_eq_none_iff (fuel : Nat) (stream : List UInt8)
    (mapKey : List (List UInt8 × List UInt8)) :
    headerLoop fuel stream mapKey = none ↔ [] ∈ lines fuel stream := by
  induction fuel generalizing stream mapKey with
  | zero => simp [headerLoop, lines]
  | succ fuel ih =>
    cases hline : getline stream with
    | none => simp [headerLoop, lines, hline]
    | some p =>
      cases p with
      | mk line rest =>
        cases line with
        | nil => simp [headerLoop, lines, hline]
        | cons c cs =>
          have hmem : [] ∈ lines (fuel + 1) stream ↔ [] ∈ lines fuel rest := by
            simp [lines, hline]
          rw [hmem, headerLoop, hline]
          simp only
          split
          · exact ih rest mapKey
          · exact ih rest _

theorem lineFeeds_cons (rest : List UInt8) :
    [10, 10] <:+: 10 :: rest ↔ rest.head? = some 10 ∨ [10, 10] <:+: rest := by
  rw [List.infix_cons_iff]
  apply or_congr_left
  rw [List.cons_prefix_cons, and_iff_right rfl]
  cases rest with
  | nil => decide
  | cons c cs =>
    rw [List.cons_prefix_cons, and_iff_left List.nil_prefix, List.head?_cons, Option.some.injEq]
    exact eq_comm

theorem lineFeeds_append {line : List UInt8} (h : 10 ∉ line) (rest : List UInt8) :
    [10, 10] <:+: line ++ 10 :: rest ↔ [10, 10] <:+: 10 :: rest := by
  induction line with
  | nil => rfl
  | cons c cs ih =>
    rw [List.mem_cons, not_or] at h
    have hfront : ¬ [10, 10] <+: c :: (cs ++ 10 :: rest) := by
      intro hpre
      exact h.1 (List.cons_prefix_cons.mp hpre).1
    rw [List.cons_append, List.infix_cons_iff, or_iff_right hfront, ih h.2]

/-- A loop over the lines meets an empty one at two line feeds in a row, and at one right in
front. -/
theorem nil_mem_lines_iff {fuel : Nat} {stream : List UInt8} (hfuel : stream.length ≤ fuel) :
    [] ∈ lines fuel stream ↔ stream.head? = some 10 ∨ [10, 10] <:+: stream := by
  induction fuel generalizing stream with
  | zero =>
    have hnil := List.length_eq_zero_iff.mp (Nat.le_zero.mp hfuel)
    subst hnil
    decide
  | succ fuel ih =>
    by_cases hmem : 10 ∈ stream
    · obtain ⟨line, rest, rfl, hline⟩ := List.eq_append_cons_of_mem hmem
      rw [List.length_append, List.length_cons] at hfuel
      have hlines : lines (fuel + 1) (line ++ 10 :: rest) = line :: lines fuel rest := by
        simp only [lines, getline_append hline]
      rw [hlines, List.mem_cons, ih (by omega), lineFeeds_append hline, lineFeeds_cons]
      cases line with
      | nil => exact iff_of_true (.inl rfl) (.inl rfl)
      | cons c cs =>
        rw [List.mem_cons, not_or] at hline
        have hhead : ¬ (c :: cs ++ 10 :: rest).head? = some 10 := by
          intro heq
          exact hline.1 (Option.some.inj heq).symm
        rw [or_iff_right hhead, or_iff_right (List.cons_ne_nil c cs).symm]
    · -- without a line feed the stream is one line, or none
      have hright : ¬ (stream.head? = some 10 ∨ [10, 10] <:+: stream) := by
        intro h
        apply hmem
        cases h with
        | inl h => exact List.mem_of_mem_head? h
        | inr h => exact h.subset (List.mem_cons_self ..)
      apply iff_of_false ?_ hright
      by_cases hne : stream = []
      · rw [hne]
        exact List.not_mem_nil
      · have hlines : lines (fuel + 1) stream = [stream] := by
          simp only [lines, getline_eq hne hmem]
          cases fuel <;> rfl
        rw [hlines, List.mem_singleton]
        exact fun h => hne h.symm

theorem get_prefix_line (text : List UInt8) :
    ascii "GET" <+: text.takeWhile (· ≠ 10) ↔ ascii "GET" <+: text := by
  constructor
  · intro h
    exact h.trans (List.takeWhile_prefix _)
  · intro h
    obtain ⟨rest, rfl⟩ := h
    have hline : ∀ c ∈ ascii "GET", decide (c ≠ 10) = true := by decide +kernel
    rw [List.takeWhile_append_of_pos hline]
    exact List.prefix_append _ _

/-- The header loop meets an empty line exactly in a GET request with two line feeds in a row. -/
theorem nil_mem_requestLines_iff {pData text : List UInt8} {len : Nat} (hlen : 2 ≤ len)
    (htext : cString pData = some text) :
    [] ∈ requestLines pData len ↔ ascii "GET" <+: text ∧ [10, 10] <:+: text := by
  rw [requestLines, if_neg (by omega), htext]
  change [] ∈ (match getline text with
    | none => []
    | some (line, rest) => if ¬ ascii "GET" <+: line then [] else lines rest.length rest) ↔ _
  rw [← get_prefix_line text]
  by_cases hmem : 10 ∈ text
  · obtain ⟨line, rest, rfl, hline⟩ := List.eq_append_cons_of_mem hmem
    rw [getline_append hline, takeWhile_ne hline, lineFeeds_append hline, lineFeeds_cons]
    simp only
    split
    · next hget => exact iff_of_false List.not_mem_nil fun h => hget h.1
    · next hget =>
      rw [nil_mem_lines_iff le_rfl, and_iff_right (not_not.mp hget)]
  · have hright : ¬ [10, 10] <:+: text := by
      intro h
      exact hmem (h.subset (List.mem_cons_self ..))
    apply iff_of_false ?_ fun h => hright h.2
    by_cases hne : text = []
    · rw [hne]
      exact List.not_mem_nil
    · rw [getline_eq hne hmem]
      simp [lines]

/-! ## 3. The parser and its input -/

/-- The parser has no result where it runs off the storage or indexes an empty line. -/
theorem parseHandshake_eq_none_iff (pData : List UInt8) (len : Nat) :
    parseHandshake pData len = none ↔
      2 ≤ len ∧ (cString pData = none ∨ [] ∈ requestLines pData len) := by
  by_cases hlen : len < 2
  · rw [parseHandshake, if_pos hlen]
    exact iff_of_false (by simp) (by omega)
  rw [parseHandshake, if_neg hlen, and_iff_right (by omega), requestLines, if_neg hlen]
  cases cString pData with
  | none => simp
  | some text =>
    cases hline : getline text with
    | none => simp [hline]
    | some p =>
      by_cases hget : ascii "GET" <+: p.1
      · simp only [Option.bind_eq_bind, Option.bind_some, hline, hget, not_true_eq_false, if_false,
          reduceCtorEq, false_or, ← headerLoop_eq_none_iff p.2.length p.2 []]
        cases headerLoop p.2.length p.2 [] <;> simp
      · simp [hline, hget]

theorem cString_append_of_some {bytes text : List UInt8} (h : cString bytes = some text)
    (tail : List UInt8) : cString (bytes ++ tail) = some text := by
  have hmem : 0 ∈ bytes := by
    by_contra hmem
    rw [cString_eq_none hmem] at h
    cases h
  obtain ⟨front, rest, rfl, hfront⟩ := List.eq_append_cons_of_mem hmem
  rw [cString_append hfront] at h
  rw [List.append_assoc, List.cons_append, cString_append hfront, h]

theorem parseHandshake_append {bytes text : List UInt8} (h : cString bytes = some text)
    (tail : List UInt8) (len : Nat) :
    parseHandshake (bytes ++ tail) len = parseHandshake bytes len := by
  rw [parseHandshake, cString_append_of_some h tail, parseHandshake, h]

/-- The parser of a region stays inside it. -/
structure StaysInside (bytes : List UInt8) : Prop where
  -- what follows the region in the buffer makes no difference
  same : ∃ parsed, ∀ tail, parseHandshake (bytes ++ tail) bytes.length = parsed
  inRange : ∀ tail, ∀ line ∈ requestLines (bytes ++ tail) bytes.length, LineInRange line

/-- It does exactly when the region holds a NUL, which ends the text in time, and the text is no GET
request with a line feed right behind another. -/
theorem staysInside_iff (bytes : List UInt8) :
    StaysInside bytes ↔ bytes.length < 2 ∨
      ∃ text, cString bytes = some text ∧ (¬ ascii "GET" <+: text ∨ ¬ [10, 10] <:+: text) := by
  by_cases hlen : bytes.length < 2
  · apply iff_of_true ?_ (.inl hlen)
    constructor
    · apply Exists.intro (some none)
      intro tail
      rw [parseHandshake, if_pos hlen]
    · intro tail line hline
      rw [requestLines, if_pos hlen] at hline
      cases hline
  rw [or_iff_right hlen]
  constructor
  · intro h
    have hempty : ∀ tail, [] ∉ requestLines (bytes ++ tail) bytes.length := by
      intro tail hmem
      exact (lineInRange_iff []).mp (h.inRange tail [] hmem) rfl
    cases htext : cString bytes with
    | none =>
      -- nothing behind the region: no result; a NUL behind it: a result
      obtain ⟨parsed, hsame⟩ := h.same
      have hnone : parsed = none := by
        rw [← hsame [], parseHandshake_eq_none_iff, List.append_nil]
        exact ⟨by omega, .inl htext⟩
      have hend := hsame [0]
      rw [hnone, parseHandshake_eq_none_iff] at hend
      have hnul : cString (bytes ++ [0]) = none := hend.2.resolve_right (hempty [0])
      rw [cString, if_pos (by simp)] at hnul
      cases hnul
    | some text =>
      apply Exists.intro text
      apply And.intro rfl
      have hmem := hempty []
      rw [List.append_nil, nil_mem_requestLines_iff (by omega) htext] at hmem
      exact not_and_or.mp hmem
  · intro h
    obtain ⟨text, htext, hcond⟩ := h
    constructor
    · exact ⟨_, fun tail => parseHandshake_append htext tail bytes.length⟩
    · intro tail line hline
      apply (lineInRange_iff line).mpr
      intro hnil
      rw [hnil, nil_mem_requestLines_iff (by omega) (cString_append_of_some htext tail)] at hline
      exact not_and_or.mpr hcond hline

/-- A region that ends inside the header lines takes the key from what an earlier read left behind
it, and in one with two line feeds the code indexes an empty line at `npos`. -/
theorem handshake_reads_outside :
    (parseHandshake (ascii "GET /\r\nHost: a\r\n" ++ [0]) 16 = some none ∧
      parseHandshake (ascii "GET /\r\nHost: a\r\n" ++
        (ascii "Sec-WebSocket-Key: k\r\n" ++ [0])) 16 = some (some (ascii "a", ascii "k"))) ∧
      ([] ∈ requestLines (ascii "GET /\n\n" ++ [0]) 7 ∧ ¬ LineInRange []) ∧
      ¬ (∀ bytes, StaysInside bytes) := by
  have hrefused : parseHandshake (ascii "GET /\r\nHost: a\r\n" ++ [0]) 16 = some none := by
    decide +kernel
  have haccepted : parseHandshake (ascii "GET /\r\nHost: a\r\n" ++
      (ascii "Sec-WebSocket-Key: k\r\n" ++ [0])) 16 = some (some (ascii "a", ascii "k")) := by
    decide +kernel
  apply And.intro ⟨hrefused, haccepted⟩
  apply And.intro
  · apply And.intro (by decide +kernel)
    rw [lineInRange_iff]
    exact fun h => h rfl
  · intro h
    obtain ⟨parsed, hsame⟩ := (h (ascii "GET /\r\nHost: a\r\n")).same
    have hlen : (ascii "GET /\r\nHost: a\r\n").length = 16 := rfl
    rw [hlen] at hsame
    have heq := hrefused.symm.trans ((hsame [0]).trans ((hsame _).symm.trans haccepted))
    cases heq

end LuaServer
