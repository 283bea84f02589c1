import LuaServer.Network.HttpBoundaries
import LuaServer.Utils.ParseUrl

/-!
# UrlTarget — the target of a request as `http_parser_parse_url` takes it apart

A target that begins with its path is read in three pieces.  Each has its state, in which the loop
stays until the delimiter.
-/

namespace LuaServer

open Reasoning UrlChar

/-! ## 1. Characters -/

def IsVisible (c : UInt8) : Prop := 33 ≤ c ∧ c ≤ 126

instance (c : UInt8) : Decidable (IsVisible c) := inferInstanceAs (Decidable (_ ∧ _))

theorem isUrlChar_iff {c : UInt8} : isUrlChar c = true ↔ IsVisible c ∧ c ≠ 35 ∧ c ≠ 63 := by
  simp only [isUrlChar, IsVisible, Bool.and_eq_true, decide_eq_true_eq, bne_iff_ne, and_assoc]

namespace UrlState

theorem parse_url_char_of_visible {c : UInt8} (h : IsVisible c) (s : UrlState) :
    s.parse_url_char c = visibleChar c s := by
  have hne : ∀ d : UInt8, d < 33 → c ≠ d := by
    rintro d hd rfl
    exact absurd h.1 (UInt8.not_le.mpr hd)
  rw [parse_url_char, if_neg, if_neg]
  · rintro (h' | h')
    · exact hne 9 (by decide) h'
    · exact hne 12 (by decide) h'
  · rintro (h' | h' | h')
    · exact hne 32 (by decide) h'
    · exact hne 13 (by decide) h'
    · exact hne 10 (by decide) h'

/-- Behind the server. -/
def isTail : UrlState → Bool
  | s_req_path => true
  | s_req_query_string_start => true
  | s_req_query_string => true
  | s_req_fragment_start => true
  | s_req_fragment => true
  | _ => false

/-- Behind the server the loop goes on with each visible character, and with no other. -/
theorem isTail_parse_url_char {s : UrlState} (hs : s.isTail = true) (c : UInt8) :
    (IsVisible c → (s.parse_url_char c).isTail = true) ∧
      (¬ IsVisible c → s.parse_url_char c = s_dead) := by
  have hurl : ¬ IsVisible c → isUrlChar c = false ∧ c ≠ 63 ∧ c ≠ 35 := by
    intro h
    refine ⟨Bool.eq_false_iff.mpr fun h' => h (isUrlChar_iff.mp h').1, ?_, ?_⟩ <;> rintro rfl <;>
      exact h (by decide)
  have hgoes : IsVisible c → isUrlChar c = true ∨ c = 63 ∨ c = 35 := by
    intro h
    by_cases h₁ : c = 63
    · exact .inr (.inl h₁)
    · by_cases h₂ : c = 35
      · exact .inr (.inr h₂)
      · exact .inl (isUrlChar_iff.mpr ⟨h, h₂, h₁⟩)
  constructor
  · intro h
    rw [parse_url_char_of_visible h]
    rcases hgoes h with h' | rfl | rfl
    · cases s <;> first | exact absurd hs (by decide) | (simp only [visibleChar, queryChar, h']; rfl)
    · cases s <;> first | exact absurd hs (by decide) | decide
    · cases s <;> first | exact absurd hs (by decide) | decide
  · intro h
    obtain ⟨h', h₁, h₂⟩ := hurl h
    rw [parse_url_char]
    split_ifs
    · rfl
    · rfl
    · cases s <;> first | exact absurd hs (by decide) | simp [visibleChar, queryChar, h', h₁, h₂]

end UrlState

/-! ## 2. Pieces -/

namespace ParsedUrl

def setSpan (u : ParsedUrl) (uf : UrlField) (off len : Nat) : ParsedUrl :=
  { u with
    field_set := insert uf u.field_set
    field_data := Function.update u.field_data uf ⟨UInt16.ofNat off, UInt16.ofNat len⟩ }

theorem extend_setSpan (u : ParsedUrl) (uf : UrlField) (off len : Nat) :
    (u.setSpan uf off len).extend uf = u.setSpan uf off (len + 1) := by
  simp only [extend, setSpan, Function.update_self, Function.update_idem, UInt16.ofNat_add]
  rfl

end ParsedUrl

namespace UrlScan

open UrlState

variable {s s' : UrlState} {uf : UrlField} {old : Option UrlField} {f : Bool} {u : ParsedUrl}

theorem scanLoop_skip {c : UInt8} (hparse : s.parse_url_char c = s') (hturn : s'.turn = .skip)
    (i : Nat) (rest : List UInt8) : scanLoop ⟨s, old, f, u⟩ i (c :: rest) =
      scanLoop ⟨s', old, f, u⟩ (i + 1) rest := by
  rw [scanLoop, scanChar]
  simp only [hparse, hturn]

theorem scanLoop_start {c : UInt8} (hparse : s.parse_url_char c = s')
    (hturn : s'.turn = .field uf) (hat : s' ≠ .s_req_server_with_at) (hold : old ≠ some uf)
    (i : Nat) (rest : List UInt8) : scanLoop ⟨s, old, f, u⟩ i (c :: rest) =
      scanLoop ⟨s', some uf, f, u.setSpan uf i 1⟩ (i + 1) rest := by
  rw [scanLoop, scanChar]
  simp only [hparse, hturn, enter, if_neg hold, beq_eq_false_iff_ne.mpr hat, Bool.or_false]
  rfl

theorem scanLoop_stay (hturn : s.turn = .field uf) (hat : s ≠ .s_req_server_with_at)
    {l : List UInt8} (hl : ∀ c ∈ l, s.parse_url_char c = s) (off len i : Nat)
    (rest : List UInt8) :
    scanLoop ⟨s, some uf, f, u.setSpan uf off len⟩ i (l ++ rest) =
      scanLoop ⟨s, some uf, f, u.setSpan uf off (len + l.length)⟩ (i + l.length) rest := by
  induction l generalizing len i with
  | nil => rfl
  | cons c l ih =>
    rw [List.cons_append, scanLoop, scanChar]
    simp only [hl c (List.mem_cons_self ..), hturn, enter, if_true, beq_eq_false_iff_ne.mpr hat,
      Bool.or_false, ParsedUrl.extend_setSpan]
    rw [ih (fun d hd => hl d (List.mem_cons_of_mem c hd)), List.length_cons,
      Nat.add_assoc, Nat.add_assoc, Nat.add_comm 1]

/-- A piece that is not empty becomes a field. -/
theorem scanLoop_piece (hturn : s'.turn = .field uf) (hat : s' ≠ .s_req_server_with_at)
    (hold : old ≠ some uf) {l : List UInt8} (hne : l ≠ [])
    (hfirst : ∀ c ∈ l.head?, s.parse_url_char c = s')
    (hl : ∀ c ∈ l, s'.parse_url_char c = s') (i : Nat) (rest : List UInt8) :
    scanLoop ⟨s, old, f, u⟩ i (l ++ rest) =
      scanLoop ⟨s', some uf, f, u.setSpan uf i l.length⟩ (i + l.length) rest := by
  obtain ⟨c, l, rfl⟩ := List.exists_cons_of_ne_nil hne
  rw [List.cons_append, scanLoop_start (hfirst c rfl) hturn hat hold,
    scanLoop_stay hturn hat fun d hd => hl d (List.mem_cons_of_mem c hd), List.length_cons,
    Nat.add_assoc, Nat.add_comm 1]

/-- Behind the server, what is accepted is visible. -/
theorem visible_of_scanLoop {x x' : UrlScan} {i : Nat} {chs : List UInt8}
    (hx : x.s.isTail = true) (h : x.scanLoop i chs = .ok x') : ∀ c ∈ chs, IsVisible c := by
  induction chs generalizing x i with
  | nil => exact fun c hc => absurd hc List.not_mem_nil
  | cons ch chs ih =>
    rw [scanLoop] at h
    split at h
    · exact nomatch h
    · rename_i y hy
      obtain ⟨hgoes, hdead⟩ := isTail_parse_url_char hx ch
      have hvisible : IsVisible ch := by
        by_contra hno
        rw [scanChar, hdead hno] at hy
        exact nomatch hy
      have hs : y.s = x.s.parse_url_char ch := by
        rw [scanChar] at hy
        split at hy
        · exact nomatch hy
        · exact (Except.ok.inj hy) ▸ rfl
        · exact (Except.ok.inj hy) ▸ rfl
      intro c hc
      rcases List.mem_cons.mp hc with rfl | hc
      · exact hvisible
      · exact ih (hs ▸ hgoes hvisible) h c hc

end UrlScan

/-! ## 3. A target that begins with its path -/

/-- What stands in front of the question mark and of the fragment. -/
def targetPath (buf : List UInt8) : List UInt8 := buf.takeWhile isUrlChar

/-- What stands between the question mark and the fragment. -/
def targetQuery (buf : List UInt8) : List UInt8 :=
  match buf.dropWhile isUrlChar with
  | [] => []
  | c :: rest => if c = 63 then rest.takeWhile (· ≠ 35) else []

/-- What stands behind the first `#`, and those that follow it at once. -/
def targetFragment (buf : List UInt8) : List UInt8 :=
  (buf.dropWhile (· ≠ 35)).dropWhile (· = 35)

namespace ParsedUrl

/-- A piece is a field, unless it is empty. -/
def setPiece (u : ParsedUrl) (uf : UrlField) (off : Nat) (piece : List UInt8) : ParsedUrl :=
  if piece = [] then u else u.setSpan uf off piece.length

/-- What the pieces of the target are set to. -/
def ofTarget (u : ParsedUrl) (buf : List UInt8) : ParsedUrl :=
  ((({ u with port := 0, field_set := ∅ } : ParsedUrl).setPiece .path 0 (targetPath buf)).setPiece
    .query ((targetPath buf).length + 1) (targetQuery buf)).setPiece
      .fragment (buf.length - (targetFragment buf).length) (targetFragment buf)

end ParsedUrl

namespace UrlScan

open UrlState

variable {s : UrlState} {old : Option UrlField} {f : Bool} {u : ParsedUrl}

/-- Behind the first `#`. -/
theorem scan_fragment (t : List UInt8) (ht : ∀ c ∈ t, IsVisible c)
    (hold : old ≠ some .fragment) (i : Nat) :
    ∃ x, scanLoop ⟨s_req_fragment_start, old, f, u⟩ i t = .ok x ∧ x.found_at = f ∧
      x.url = u.setPiece .fragment (i + t.length - (t.dropWhile (· = 35)).length)
        (t.dropWhile (· = 35)) := by
  induction t generalizing i with
  | nil => exact ⟨_, rfl, rfl, rfl⟩
  | cons c t ih =>
    have hc := ht c (List.mem_cons_self ..)
    by_cases hhash : c = 35
    · obtain ⟨x, hx, hf, hu⟩ := ih (fun d hd => ht d (List.mem_cons_of_mem c hd)) (i + 1)
      have hparse : s_req_fragment_start.parse_url_char c = s_req_fragment_start := by
        rw [hhash]
        decide
      have hdrop : (c :: t).dropWhile (· = 35) = t.dropWhile (· = 35) :=
        List.dropWhile_cons_of_pos (decide_eq_true hhash)
      refine ⟨x, ?_, hf, ?_⟩
      · rw [scanLoop_skip hparse rfl, hx]
      · rw [hdrop, List.length_cons, hu, Nat.add_right_comm, Nat.add_assoc i]
    · have hgoes : s_req_fragment_start.parse_url_char c = s_req_fragment := by
        rw [parse_url_char_of_visible hc, visibleChar]
        by_cases hquestion : c = 63
        · simp [hquestion]
        · rw [if_pos (isUrlChar_iff.mpr ⟨hc, hhash, hquestion⟩)]
      have hstay : ∀ d ∈ c :: t, s_req_fragment.parse_url_char d = s_req_fragment := by
        intro d hd
        rw [parse_url_char_of_visible (ht d hd), visibleChar]
        split_ifs with h₁ h₂
        · rfl
        · rfl
        · exact absurd (isUrlChar_iff.mpr ⟨ht d hd, fun h => h₂ (.inr h), fun h => h₂ (.inl h)⟩) h₁
      have hrun : scanLoop ⟨s_req_fragment_start, old, f, u⟩ i (c :: t ++ []) = _ :=
        scanLoop_piece rfl (by decide) hold (List.cons_ne_nil c t)
          (fun d hd => (Option.some.inj hd) ▸ hgoes) hstay i []
      have hdrop : (c :: t).dropWhile (· = 35) = c :: t :=
        List.dropWhile_cons_of_neg (by simp [hhash])
      rw [List.append_nil] at hrun
      refine ⟨_, hrun, rfl, ?_⟩
      rw [hdrop, Nat.add_sub_cancel, ParsedUrl.setPiece, if_neg (List.cons_ne_nil c t)]

/-- At the end of a path or a query. -/
theorem scan_hash (hs : s.parse_url_char 35 = s_req_fragment_start) {t : List UInt8}
    (ht : ∀ c ∈ t, IsVisible c) (hhead : ∀ c ∈ t.head?, c = 35) (hold : old ≠ some .fragment)
    (i : Nat) :
    ∃ x, scanLoop ⟨s, old, f, u⟩ i t = .ok x ∧ x.found_at = f ∧
      x.url = u.setPiece .fragment (i + t.length - (t.dropWhile (· = 35)).length)
        (t.dropWhile (· = 35)) := by
  cases t with
  | nil => exact ⟨_, rfl, rfl, rfl⟩
  | cons c t =>
    obtain rfl := hhead c rfl
    obtain ⟨x, hx, hf, hu⟩ :=
      scan_fragment t (fun d hd => ht d (List.mem_cons_of_mem 35 hd)) hold (i + 1)
    have hdrop : (35 :: t).dropWhile (· = 35) = t.dropWhile (· = 35) :=
      List.dropWhile_cons_of_pos (by decide)
    refine ⟨x, ?_, hf, ?_⟩
    · rw [scanLoop_skip hs rfl, hx]
    · rw [hdrop, List.length_cons, hu, Nat.add_right_comm, Nat.add_assoc i]

/-- Behind the question mark. -/
theorem scan_query {t : List UInt8} (ht : ∀ c ∈ t, IsVisible c) (hold : old = some .path)
    (i : Nat) :
    ∃ x, scanLoop ⟨s_req_query_string_start, old, f, u⟩ i t = .ok x ∧ x.found_at = f ∧
      x.url = (u.setPiece .query i (t.takeWhile (· ≠ 35))).setPiece .fragment
        (i + t.length - ((t.dropWhile (· ≠ 35)).dropWhile (· = 35)).length)
        ((t.dropWhile (· ≠ 35)).dropWhile (· = 35)) := by
  have hsplit : t.takeWhile (· ≠ 35) ++ t.dropWhile (· ≠ 35) = t := List.takeWhile_append_dropWhile
  have hlength := congrArg List.length hsplit
  rw [List.length_append] at hlength
  have hbehind : ∀ c ∈ t.dropWhile (· ≠ 35), IsVisible c :=
    fun c hc => ht c ((List.dropWhile_sublist _).subset hc)
  have hhead : ∀ c ∈ (t.dropWhile (· ≠ 35)).head?, c = 35 := by
    intro c hc
    have hnot := List.head?_dropWhile_not (fun c : UInt8 => decide (c ≠ 35)) t
    rw [Option.mem_def.mp hc] at hnot
    simpa using hnot
  by_cases hnil : t.takeWhile (· ≠ 35) = []
  · have heq : t.dropWhile (· ≠ 35) = t := by rw [hnil] at hsplit; exact hsplit
    rw [hnil, heq]
    rw [heq] at hhead
    exact scan_hash (by decide) ht hhead (by rw [hold]; decide) i
  · have hpiece : ∀ c ∈ t.takeWhile (· ≠ 35), queryChar c = s_req_query_string ∧ IsVisible c := by
      intro c hc
      have hvisible := ht c ((List.takeWhile_sublist _).subset hc)
      have hne : c ≠ 35 := by simpa using List.mem_takeWhile_imp hc
      refine ⟨?_, hvisible⟩
      rw [queryChar]
      by_cases hquestion : c = 63
      · simp [hquestion]
      · rw [if_pos (isUrlChar_iff.mpr ⟨hvisible, hne, hquestion⟩)]
    have hfirst : ∀ c ∈ (t.takeWhile (· ≠ 35)).head?,
        s_req_query_string_start.parse_url_char c = s_req_query_string := by
      intro c hc
      obtain ⟨hq, hv⟩ := hpiece c (List.mem_of_mem_head? hc)
      rw [parse_url_char_of_visible hv, visibleChar, hq]
    have hstay : ∀ c ∈ t.takeWhile (· ≠ 35),
        s_req_query_string.parse_url_char c = s_req_query_string := by
      intro c hc
      obtain ⟨hq, hv⟩ := hpiece c hc
      rw [parse_url_char_of_visible hv, visibleChar, hq]
    have hrun : scanLoop ⟨s_req_query_string_start, old, f, u⟩ i
        (t.takeWhile (· ≠ 35) ++ t.dropWhile (· ≠ 35)) = _ :=
      scanLoop_piece rfl (by decide) (by rw [hold]; decide) hnil hfirst hstay i _
    rw [hsplit] at hrun
    obtain ⟨x, hx, hf, hu⟩ := scan_hash (show s_req_query_string.parse_url_char 35 = _ by decide)
      hbehind hhead (show some UrlField.query ≠ some .fragment by decide)
      (i + (t.takeWhile (· ≠ 35)).length)
    refine ⟨x, hrun.trans hx, hf, ?_⟩
    rw [hu, Nat.add_assoc, hlength, ParsedUrl.setPiece, ParsedUrl.setPiece, ParsedUrl.setPiece,
      if_neg hnil]

end UrlScan

/-! ## 4. The whole target -/

namespace ParsedUrl

variable {u : ParsedUrl} {uf uf' : UrlField} {off : Nat} {piece buf : List UInt8}

theorem mem_setPiece :
    uf' ∈ (u.setPiece uf off piece).field_set ↔ uf' = uf ∧ piece ≠ [] ∨ uf' ∈ u.field_set := by
  by_cases h : piece = []
  · simp [setPiece, h]
  · simp [setPiece, setSpan, h]

/-- Only the pieces that are not empty are fields. -/
theorem mem_ofTarget : uf ∈ (u.ofTarget buf).field_set ↔
    uf = .fragment ∧ targetFragment buf ≠ [] ∨ uf = .query ∧ targetQuery buf ≠ [] ∨
      uf = .path ∧ targetPath buf ≠ [] := by
  rw [ofTarget, mem_setPiece, mem_setPiece, mem_setPiece]
  simp

/-- Behind the loop nothing is left to do for a target without a server. -/
theorem finish_target {x : UrlScan} (hurl : x.url = u.ofTarget buf) :
    finish buf false x = (0, u.ofTarget buf) := by
  have hschema : UrlField.schema ∉ (u.ofTarget buf).field_set := by
    rw [mem_ofTarget]
    simp
  have hhost : UrlField.host ∉ (u.ofTarget buf).field_set := by
    rw [mem_ofTarget]
    simp
  have hport : UrlField.port ∉ (u.ofTarget buf).field_set := by
    rw [mem_ofTarget]
    simp
  rw [finish, hurl, if_neg fun h => hschema h.1, if_neg hhost]
  simp only [Bool.false_eq_true, false_and, if_false, readPort, if_neg hport]

open UrlState UrlScan in
theorem scan_target (hfirst : buf.head? = some 47 ∨ buf.head? = some 42)
    (hbuf : ∀ c ∈ buf, IsVisible c) :
    ∃ x, (begin false u).scanLoop 0 buf = .ok x ∧ x.url = u.ofTarget buf := by
  have hsplit : targetPath buf ++ buf.dropWhile isUrlChar = buf := List.takeWhile_append_dropWhile
  have hlength := congrArg List.length hsplit
  rw [List.length_append] at hlength
  have hpath : ∀ c ∈ targetPath buf, isUrlChar c = true := fun c hc => List.mem_takeWhile_imp hc
  have hne : targetPath buf ≠ [] := by
    rw [targetPath]
    cases buf with
    | nil => rcases hfirst with h | h <;> exact nomatch h
    | cons c buf =>
      have hc : isUrlChar c = true := by
        rcases hfirst with h | h <;> exact Option.some.inj h ▸ by decide
      rw [List.takeWhile_cons_of_pos hc]
      exact List.cons_ne_nil _ _
  have hhead : (targetPath buf).head? = buf.head? := by
    conv_rhs => rw [← hsplit]
    rw [List.head?_append_of_ne_nil _ hne]
  have hstart : ∀ c ∈ (targetPath buf).head?,
      s_req_spaces_before_url.parse_url_char c = s_req_path := by
    intro c hc
    rw [hhead] at hc
    rcases hfirst with h | h <;> rw [h] at hc <;> exact Option.some.inj hc ▸ by decide
  have hstay : ∀ c ∈ targetPath buf, s_req_path.parse_url_char c = s_req_path := by
    intro c hc
    rw [parse_url_char_of_visible (isUrlChar_iff.mp (hpath c hc)).1, visibleChar, if_pos (hpath c hc)]
  -- the path is read as one piece; the character behind it says what follows
  have hrun : (begin false u).scanLoop 0 (targetPath buf ++ buf.dropWhile isUrlChar) = _ :=
    scanLoop_piece rfl (by decide) (show none ≠ some UrlField.path by decide) hne hstart hstay 0 _
  rw [hsplit, Nat.zero_add] at hrun
  have hfragment : targetFragment buf =
      ((buf.dropWhile isUrlChar).dropWhile (· ≠ 35)).dropWhile (· = 35) := by
    have hbehind : (targetPath buf ++ buf.dropWhile isUrlChar).dropWhile (· ≠ 35) =
        (buf.dropWhile isUrlChar).dropWhile (· ≠ 35) :=
      List.dropWhile_append_of_pos fun c hc =>
        decide_eq_true (isUrlChar_iff.mp (hpath c hc)).2.1
    rw [hsplit] at hbehind
    rw [targetFragment, hbehind]
  have hbehind : ∀ c ∈ buf.dropWhile isUrlChar, IsVisible c :=
    fun c hc => hbuf c ((List.dropWhile_sublist _).subset hc)
  have hdelimiter : ∀ c ∈ (buf.dropWhile isUrlChar).head?, c = 63 ∨ c = 35 := by
    intro c hc
    have hnot := List.head?_dropWhile_not isUrlChar buf
    rw [Option.mem_def.mp hc] at hnot
    by_contra h
    have hurl := isUrlChar_iff.mpr
      ⟨hbehind c (List.mem_of_mem_head? hc), fun h' => h (.inr h'), fun h' => h (.inl h')⟩
    exact absurd (hurl.symm.trans hnot) (by decide)
  have hpiece (v : ParsedUrl) : v.setPiece .path 0 (targetPath buf) =
      v.setSpan .path 0 (targetPath buf).length :=
    if_neg hne
  rw [ofTarget, hpiece, hfragment, targetQuery]
  cases hrest : buf.dropWhile isUrlChar with
  | nil =>
    rw [hrest] at hrun
    exact ⟨_, hrun, rfl⟩
  | cons c rest =>
    rw [hrest] at hrun hlength hbehind hdelimiter
    rcases hdelimiter c rfl with rfl | rfl
    · obtain ⟨x, hx, -, hu⟩ := scan_query (fun c hc => hbehind c (List.mem_cons_of_mem 63 hc))
        rfl ((targetPath buf).length + 1)
      have hquestion : s_req_path.parse_url_char 63 = s_req_query_string_start := by decide
      rw [scanLoop_skip hquestion rfl] at hrun
      refine ⟨x, hrun.trans hx, ?_⟩
      have hdrop : (63 :: rest).dropWhile (· ≠ 35) = rest.dropWhile (· ≠ 35) :=
        List.dropWhile_cons_of_pos (by decide)
      rw [List.length_cons, ← Nat.add_assoc, Nat.add_right_comm] at hlength
      rw [hu, hlength, hdrop]
      rfl
    · obtain ⟨x, hx, -, hu⟩ := scan_hash (show s_req_path.parse_url_char 35 = _ by decide) hbehind
        (fun c hc => (Option.some.inj hc).symm) (show some UrlField.path ≠ some .fragment by decide)
        (targetPath buf).length
      refine ⟨x, hrun.trans hx, ?_⟩
      have hdrop : (35 :: rest).dropWhile (· ≠ 35) = 35 :: rest :=
        List.dropWhile_cons_of_neg (by decide)
      rw [hu, hlength, hdrop]
      rfl

/-- A target that begins with its path is accepted just when all of it is visible, and then its three
pieces are the fields. -/
theorem parse_url_target (u : ParsedUrl) (hfirst : buf.head? = some 47 ∨ buf.head? = some 42) :
    ((http_parser_parse_url buf false u).1 = 0 ↔ ∀ c ∈ buf, IsVisible c) ∧
      ((∀ c ∈ buf, IsVisible c) → http_parser_parse_url buf false u = (0, u.ofTarget buf)) := by
  have hne : buf ≠ [] := by
    rintro rfl
    rcases hfirst with h | h <;> exact nomatch h
  have hgoes : (∀ c ∈ buf, IsVisible c) →
      http_parser_parse_url buf false u = (0, u.ofTarget buf) := by
    intro h
    obtain ⟨x, hx, hurl⟩ := scan_target (u := u) hfirst h
    rw [http_parser_parse_url, if_neg hne, hx]
    exact finish_target hurl
  refine ⟨⟨fun h => ?_, fun h => by rw [hgoes h]⟩, hgoes⟩
  rw [http_parser_parse_url, if_neg hne] at h
  split at h
  · exact absurd h (show (1 : Int) ≠ 0 by decide)
  · rename_i x hscan
    obtain ⟨c, rest, rfl⟩ := List.exists_cons_of_ne_nil hne
    have hc : IsVisible c ∧ UrlState.s_req_spaces_before_url.parse_url_char c = .s_req_path := by
      rcases hfirst with h | h <;> exact Option.some.inj h ▸ by decide
    -- from the second character on the loop is behind the server
    have hstep : (begin false u).scanLoop 0 (c :: rest) = _ :=
      UrlScan.scanLoop_start hc.2 rfl (by decide) (show none ≠ some UrlField.path by decide) 0 rest
    rw [hstep] at hscan
    intro d hd
    rcases List.mem_cons.mp hd with rfl | hd
    · exact hc.1
    · exact UrlScan.visible_of_scanLoop rfl hscan d hd

theorem parse_url_target_short :
    http_parser_parse_url (ascii "/a?b") false http_parser_url_init =
      (0, http_parser_url_init.ofTarget (ascii "/a?b")) :=
  (parse_url_target http_parser_url_init (.inl (by decide))).2 (by decide +kernel)

/-! ## 5. The target of a request -/

theorem setPiece_self (h : piece ≠ []) : (u.setPiece uf off piece).field_data uf =
    ⟨UInt16.ofNat off, UInt16.ofNat piece.length⟩ := by
  rw [setPiece, if_neg h]
  exact Function.update_self _ _ _

theorem setPiece_of_ne (h : uf' ≠ uf) :
    (u.setPiece uf off piece).field_data uf' = u.field_data uf' := by
  rw [setPiece]
  split
  · rfl
  · exact Function.update_of_ne h _ _

theorem ofTarget_path (h : targetPath buf ≠ []) : (u.ofTarget buf).field_data .path =
    ⟨UInt16.ofNat 0, UInt16.ofNat (targetPath buf).length⟩ := by
  rw [ofTarget, setPiece_of_ne (by decide), setPiece_of_ne (by decide), setPiece_self h]

theorem ofTarget_query (h : targetQuery buf ≠ []) : (u.ofTarget buf).field_data .query =
    ⟨UInt16.ofNat ((targetPath buf).length + 1), UInt16.ofNat (targetQuery buf).length⟩ := by
  rw [ofTarget, setPiece_of_ne (by decide), setPiece_self h]

/-- What `ParseUrl` tells of the fields. -/
def view (u : ParsedUrl) : HttpParserUrl where
  haveParam := decide (.query ∈ u.field_set)
  path := ((u.field_data .path).off.toNat, (u.field_data .path).len.toNat)
  query := ((u.field_data .query).off.toNat, (u.field_data .query).len.toNat)

/-- `IS_URL_CHAR` or the question mark. -/
theorem isUrlChar_of_isTargetChar {c : UInt8} (h : IsTargetChar c) :
    isUrlChar c = decide (c ≠ 63) := by
  obtain ⟨hlo, hhi, hhash⟩ := h
  by_cases hquestion : c = 63
  · rw [hquestion]
    decide
  · rw [isUrlChar_iff.mpr ⟨⟨hlo, hhi⟩, hhash, hquestion⟩, decide_eq_true hquestion]

theorem takeWhile_congr {p p' : UInt8 → Bool} {l : List UInt8} (h : ∀ c ∈ l, p c = p' c) :
    l.takeWhile p = l.takeWhile p' ∧ l.dropWhile p = l.dropWhile p' := by
  induction l with
  | nil => exact ⟨rfl, rfl⟩
  | cons c l ih =>
    obtain ⟨htake, hdrop⟩ := ih fun d hd => h d (List.mem_cons_of_mem c hd)
    rw [List.takeWhile_cons, List.takeWhile_cons, List.dropWhile_cons, List.dropWhile_cons,
      h c (List.mem_cons_self ..), htake, hdrop]
    exact ⟨rfl, rfl⟩

/-- The pieces of a target without a fragment. -/
theorem pieces_of_isTargetChar (h : ∀ c ∈ buf, IsTargetChar c) :
    targetPath buf = buf.takeWhile (· ≠ 63) ∧ targetQuery buf = (buf.dropWhile (· ≠ 63)).drop 1 := by
  obtain ⟨htake, hdrop⟩ := takeWhile_congr fun c hc => isUrlChar_of_isTargetChar (h c hc)
  refine ⟨htake, ?_⟩
  rw [targetQuery, hdrop]
  have hhead := List.head?_dropWhile_not (fun c : UInt8 => decide (c ≠ 63)) buf
  cases hrest : buf.dropWhile (· ≠ 63) with
  | nil => rfl
  | cons c rest =>
    rw [hrest] at hhead
    have hc : c = 63 := by simpa using hhead
    have hmem : ∀ d ∈ rest, IsTargetChar d := fun d hd =>
      h d ((List.dropWhile_sublist _).subset (hrest ▸ List.mem_cons_of_mem c hd))
    show (if c = 63 then rest.takeWhile (· ≠ 35) else []) = rest
    rw [if_pos hc, List.takeWhile_eq_self_iff]
    exact fun d hd => decide_eq_true (hmem d hd).2.2

/-- Of the target of a request that names no server, the parser finds the path and the query as the
model of a connection takes them. -/
theorem view_of_request (q : HttpRequest) (horigin : ¬ ascii "http://" <+: q.target)
    (u : ParsedUrl) : ∃ u', http_parser_parse_url q.target false u = (0, u') ∧
      u'.view.path = (q.pathOffset, q.path.length) ∧
      (u'.view.haveParam = true ↔ q.query ≠ []) ∧
      (q.query ≠ [] → u'.view.query = (q.pathOffset + q.path.length + 1, q.query.length)) := by
  have htarget : pathAndQuery q.target = q.target := if_neg horigin
  have hfirst : q.target.head? = some 47 := htarget ▸ q.target_path
  obtain ⟨hpath, hquery⟩ := pieces_of_isTargetChar q.target_text
  have hpath' : targetPath q.target = q.path := by rw [hpath, HttpRequest.path, htarget]
  have hquery' : targetQuery q.target = q.query := by rw [hquery, HttpRequest.query, htarget]
  have hoffset : q.pathOffset = 0 := by rw [HttpRequest.pathOffset, htarget, Nat.sub_self]
  have hlength : q.target.length < 2 ^ 16 - 1 := by
    have hlt := q.head_lt
    have hle : q.target.length ≤
        (headText (requestLine q.isPost q.target :: q.fields.map fieldLine)).length := by
      rw [headText_cons, requestLine]
      simp only [List.length_append]
      omega
    omega
  have hpathlen : q.path.length ≤ q.target.length := by
    rw [HttpRequest.path, htarget]
    exact (List.takeWhile_sublist _).length_le
  refine ⟨_, (parse_url_target u (.inl hfirst)).2 fun c hc => ?_, ?_, ?_, ?_⟩
  · exact ⟨(q.target_text c hc).1, (q.target_text c hc).2.1⟩
  · have hsize : (UInt16.size : Nat) = 65536 := rfl
    rw [view, ofTarget_path (hpath' ▸ q.path_ne_nil), hpath', hoffset]
    exact Prod.ext rfl (UInt16.toNat_ofNat_of_lt' (by omega))
  · rw [view, decide_eq_true_eq, mem_ofTarget, hquery']
    simp
  · intro hne
    have hsum := congrArg List.length (q.pathAndQuery_eq hne)
    rw [htarget, List.length_append, List.length_cons] at hsum
    have hsize : (UInt16.size : Nat) = 65536 := rfl
    rw [view, ofTarget_query (hquery' ▸ hne), hquery', hpath', hoffset, Nat.zero_add]
    exact Prod.ext (UInt16.toNat_ofNat_of_lt' (by omega)) (UInt16.toNat_ofNat_of_lt' (by omega))

theorem view_of_request_namePost :
    ∃ u', http_parser_parse_url (ascii "/form?id=7") false http_parser_url_init = (0, u') ∧
      u'.view = ⟨true, (0, 5), (6, 4)⟩ := by
  obtain ⟨u', hparse, hpath, hparam, hquery⟩ :=
    view_of_request HttpConnect.namePost (by decide) http_parser_url_init
  have hne : HttpConnect.namePost.query ≠ [] := by decide
  have hview : u'.view = ⟨u'.view.haveParam, u'.view.path, u'.view.query⟩ := rfl
  refine ⟨u', hparse, ?_⟩
  rw [hview, hpath, hparam.mpr hne, hquery hne]
  decide

end ParsedUrl

end LuaServer
