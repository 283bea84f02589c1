import LuaServer.Network.HttpConnect
import LuaServer.Reasoning.MessageHead

/-!
# HttpRequest — the requests a connection is meant for

GET requests and POST requests with a `Content-Length` body.  What a request asks for is a function
of its head, and `ParsedAs` says what a parser makes of the head: this is all that is assumed of
`llhttp`.
-/

open Reasoning

namespace LuaServer

theorem headEnd_eq : headEnd = [13, 10, 13, 10] := by decide

/-! ## 1. Heads -/

def requestLine (isPost : Bool) (target : List UInt8) : List UInt8 :=
  (if isPost then ascii "POST " else ascii "GET ") ++ (target ++ ascii " HTTP/1.1")

/-- The value has the blanks around it. -/
def fieldLine (field : List UInt8 × List UInt8) : List UInt8 := field.1 ++ 58 :: field.2

def lowerCase (name : List UInt8) : List UInt8 :=
  name.map fun c => if 65 ≤ c ∧ c ≤ 90 then c + 32 else c

def trim (value : List UInt8) : List UInt8 :=
  ((value.dropWhile fun c => c = 32 ∨ c = 9).reverse.dropWhile fun c => c = 32 ∨ c = 9).reverse

def decimal (digits : List UInt8) : Option Nat :=
  if digits ≠ [] ∧ digits.all fun d => 48 ≤ d ∧ d ≤ 57 then
    some (digits.foldl (fun n d => 10 * n + (d.toNat - 48)) 0)
  else none

/-- What the `Content-Length` fields say. -/
def contentLengths (fields : List (List UInt8 × List UInt8)) : List (Option Nat) :=
  (fields.filter fun field => lowerCase field.1 = ascii "content-length").map
    fun field => decimal (trim field.2)

/-- The target without the `http://host` of an absolute one. -/
def pathAndQuery (target : List UInt8) : List UInt8 :=
  if ascii "http://" <+: target then (target.drop 7).dropWhile (· ≠ 47) else target

/-- A character of a target: visible, and not the beginning of a fragment. -/
def IsTargetChar (c : UInt8) : Prop := 33 ≤ c ∧ c ≤ 126 ∧ c ≠ 35

/-- A character of a field name: visible, and not a colon. -/
def IsNameChar (c : UInt8) : Prop := 33 ≤ c ∧ c ≤ 126 ∧ c ≠ 58

/-- A character of a field value: a tab, or no control character. -/
def IsValueChar (c : UInt8) : Prop := c = 9 ∨ 32 ≤ c ∧ c ≠ 127

/-- A text with the end of a head at its end and nowhere else. -/
structure IsHead (head : List UInt8) : Prop where
  text : 0 ∉ head
  suffix : headEnd <:+ head
  ends_only : ∀ i, headEnd <+: head.drop i → i + 4 = head.length

theorem isHead_of_lines {lines : List (List UInt8)} (hne : lines ≠ [])
    (hlines : ∀ l ∈ lines, IsLine l ∧ 0 ∉ l) : IsHead (headText lines) where
  text := by
    intro hmem
    rcases List.mem_append.mp hmem with hmem | hmem
    · obtain ⟨l', hl', hmem⟩ := List.mem_flatten.mp hmem
      obtain ⟨l, hl, rfl⟩ := List.mem_map.mp hl'
      rcases List.mem_append.mp hmem with hmem | hmem
      · exact (hlines l hl).2 hmem
      · exact absurd hmem (by decide)
    · exact absurd hmem (by decide)
  suffix := by
    rw [headEnd_eq]
    exact blankLine_suffix hne
  ends_only := by
    intro i hi
    rw [headEnd_eq] at hi
    exact blankLine_at (fun l hl => (hlines l hl).1) hi

theorem IsHead.drop_headEnd {head : List UInt8} (h : IsHead head) :
    head.drop (head.length - 4) = headEnd :=
  (List.suffix_iff_eq_drop.mp h.suffix).symm

theorem IsHead.four_le {head : List UInt8} (h : IsHead head) : 4 ≤ head.length :=
  h.suffix.length_le

/-- A well-formed GET request, or a well-formed POST request with a body of the length that its head
announces. -/
structure HttpRequest where
  isPost : Bool
  target : List UInt8
  fields : List (List UInt8 × List UInt8)
  body : List UInt8
  target_text : ∀ c ∈ target, IsTargetChar c
  target_path : (pathAndQuery target).head? = some 47
  name_text : ∀ field ∈ fields, field.1 ≠ [] ∧ ∀ c ∈ field.1, IsNameChar c
  value_text : ∀ field ∈ fields, ∀ c ∈ field.2, IsValueChar c
  length_eq : ∀ n ∈ contentLengths fields, n = some body.length
  length_of_post : isPost = true → contentLengths fields ≠ []
  body_of_get : isPost = false → body = []
  not_chunked : ∀ field ∈ fields, lowerCase field.1 ≠ ascii "transfer-encoding"
  body_text : 0 ∉ body
  head_lt : (headText (requestLine isPost target :: fields.map fieldLine)).length < 0xffff
  body_lt : body.length < 2 ^ 31

namespace HttpRequest

def lines (q : HttpRequest) : List (List UInt8) :=
  requestLine q.isPost q.target :: q.fields.map fieldLine

def head (q : HttpRequest) : List UInt8 := headText q.lines

def bytes (q : HttpRequest) : List UInt8 := q.head ++ q.body

def stream (qs : List HttpRequest) : List UInt8 := (qs.map bytes).flatten

def path (q : HttpRequest) : List UInt8 := (pathAndQuery q.target).takeWhile (· ≠ 63)

/-- What follows the question mark. -/
def query (q : HttpRequest) : List UInt8 := ((pathAndQuery q.target).dropWhile (· ≠ 63)).drop 1

def method (q : HttpRequest) : UInt8 := if q.isPost then HTTP_POST else HTTP_GET

def targetOffset (q : HttpRequest) : Nat := if q.isPost then 5 else 4

/-- Where the path stands in the target. -/
def pathOffset (q : HttpRequest) : Nat := q.target.length - (pathAndQuery q.target).length

/-- The call that a request is to lead to. -/
def reaction (q : HttpRequest) : HttpReaction :=
  if q.isPost then .onPost (some q.path) (some q.body) else .onGet (some q.path) (some q.query)

/-- A result that says what the head says. -/
structure ParsedAs (r : LlhttpResult) (q : HttpRequest) : Prop where
  ok : r.ok = true
  method : r.method = q.method
  content_length : r.content_length.toNat = q.body.length
  on_url : r.on_url = some q.targetOffset
  path : r.url.path = (q.pathOffset, q.path.length)
  haveParam : r.url.haveParam = true ↔ q.query ≠ []
  query : q.query ≠ [] → r.url.query = (q.pathOffset + q.path.length + 1, q.query.length)

/-- `llhttp` parses the complete heads of these requests correctly, whatever it parsed before. -/
def ParsesHeads (llhttp : Llhttp) (qs : List HttpRequest) : Prop :=
  ∀ q ∈ qs, ∀ url, ParsedAs (llhttp url q.head) q

/-! ## 2. The lines of a head -/

theorem requestLine_ne_nil (isPost : Bool) (target : List UInt8) :
    requestLine isPost target ≠ [] := by
  cases isPost <;> exact List.cons_ne_nil _ _

theorem mem_requestLine {isPost : Bool} {target : List UInt8} {c : UInt8}
    (h : c ∈ requestLine isPost target) (hc : c < 32) : c ∈ target := by
  have hmethod : c ∉ (if isPost then ascii "POST " else ascii "GET ") := by
    have hall : ∀ x ∈ (if isPost then ascii "POST " else ascii "GET "), ¬ x < 32 := by
      cases isPost <;> decide +kernel
    exact fun hmem => hall c hmem hc
  have hversion : c ∉ ascii " HTTP/1.1" := by
    have hall : ∀ x ∈ ascii " HTTP/1.1", ¬ x < 32 := by decide +kernel
    exact fun hmem => hall c hmem hc
  rcases List.mem_append.mp h with hmem | hmem
  · exact absurd hmem hmethod
  · exact (List.mem_append.mp hmem).resolve_right hversion

theorem not_isTargetChar {c : UInt8} (hc : c < 32) : ¬ IsTargetChar c := by
  rintro ⟨hlo, -, -⟩
  exact absurd (UInt8.lt_of_le_of_lt hlo hc) (by decide)

theorem not_isNameChar {c : UInt8} (hc : c < 32) : ¬ IsNameChar c := by
  rintro ⟨hlo, -, -⟩
  exact absurd (UInt8.lt_of_le_of_lt hlo hc) (by decide)

theorem not_isValueChar {c : UInt8} (hc : c < 32) (hne : c ≠ 9) : ¬ IsValueChar c := by
  rintro (h | ⟨hlo, -⟩)
  · exact hne h
  · exact absurd (UInt8.lt_of_le_of_lt hlo hc) (by decide)

/-- The only control character in a field is the tab. -/
theorem not_mem_fieldLine {field : List UInt8 × List UInt8} (hname : ∀ c ∈ field.1, IsNameChar c)
    (hvalue : ∀ c ∈ field.2, IsValueChar c) {c : UInt8} (hc : c < 32) (hne : c ≠ 9) :
    c ∉ fieldLine field := by
  intro hmem
  rcases List.mem_append.mp hmem with hmem | hmem
  · exact not_isNameChar hc (hname c hmem)
  rcases List.mem_cons.mp hmem with rfl | hmem
  · exact absurd hc (by decide)
  · exact not_isValueChar hc hne (hvalue c hmem)

theorem not_mem_lines (q : HttpRequest) {l : List UInt8} (hl : l ∈ q.lines) {c : UInt8}
    (hc : c < 32) (hne : c ≠ 9) : c ∉ l := by
  rcases List.mem_cons.mp hl with rfl | hl
  · exact fun hmem => not_isTargetChar hc (q.target_text c (mem_requestLine hmem hc))
  · obtain ⟨field, hfield, rfl⟩ := List.mem_map.mp hl
    exact not_mem_fieldLine (q.name_text field hfield).2 (q.value_text field hfield) hc hne

theorem isLine (q : HttpRequest) : ∀ l ∈ q.lines, IsLine l := by
  intro l hl
  refine ⟨?_, q.not_mem_lines hl (by decide) (by decide)⟩
  rcases List.mem_cons.mp hl with rfl | hl
  · exact requestLine_ne_nil _ _
  · obtain ⟨field, -, rfl⟩ := List.mem_map.mp hl
    simp [fieldLine]

theorem isHead (q : HttpRequest) : IsHead q.head := by
  apply isHead_of_lines
  · simp [lines]
  · exact fun l hl => ⟨q.isLine l hl, q.not_mem_lines hl (by decide) (by decide)⟩

theorem zero_not_mem_stream (qs : List HttpRequest) : 0 ∉ stream qs := by
  intro hmem
  obtain ⟨l, hl, hmem⟩ := List.mem_flatten.mp hmem
  obtain ⟨q, -, rfl⟩ := List.mem_map.mp hl
  rcases List.mem_append.mp hmem with hmem | hmem
  · exact q.isHead.text hmem
  · exact q.body_text hmem

/-! ## 3. What a head says -/

theorem fieldLine_inj {f g : List UInt8 × List UInt8} (hf : 58 ∉ f.1) (hg : 58 ∉ g.1)
    (h : fieldLine f = fieldLine g) : f = g :=
  Prod.ext_iff.mpr (split_at_inj hf hg h)

theorem requestLine_inj {p p' : Bool} {t t' : List UInt8}
    (h : requestLine p t = requestLine p' t') : p = p' ∧ t = t' := by
  have hpost : p = p' := by
    cases p <;> cases p' <;> first | rfl | exact absurd (List.cons.inj h).1 (by decide)
  subst hpost
  exact ⟨rfl, List.append_cancel_right (List.append_cancel_left h)⟩

theorem colon_not_mem_name (q : HttpRequest) {field : List UInt8 × List UInt8}
    (h : field ∈ q.fields) : 58 ∉ field.1 := fun hmem => ((q.name_text field h).2 58 hmem).2.2 rfl

theorem fieldLines_inj {fs gs : List (List UInt8 × List UInt8)} (hf : ∀ f ∈ fs, 58 ∉ f.1)
    (hg : ∀ g ∈ gs, 58 ∉ g.1) (h : fs.map fieldLine = gs.map fieldLine) : fs = gs := by
  induction fs generalizing gs with
  | nil => exact (List.map_eq_nil_iff.mp h.symm).symm
  | cons f fs ih =>
    cases gs with
    | nil => cases h
    | cons g gs =>
      obtain ⟨hf₀, hf'⟩ := List.forall_mem_cons.mp hf
      obtain ⟨hg₀, hg'⟩ := List.forall_mem_cons.mp hg
      obtain ⟨hline, hlines⟩ := List.cons.inj h
      rw [fieldLine_inj hf₀ hg₀ hline, ih hf' hg' hlines]

/-- The head determines the request but for the bytes of its body. -/
theorem head_inj {q q' : HttpRequest} (h : q.head = q'.head) :
    q.isPost = q'.isPost ∧ q.target = q'.target ∧ q.body.length = q'.body.length := by
  obtain ⟨hline, hlines⟩ := List.cons.inj (headText_inj q.isLine q'.isLine h)
  obtain ⟨hpost, htarget⟩ := requestLine_inj hline
  have hfields := fieldLines_inj (fun _ => q.colon_not_mem_name) (fun _ => q'.colon_not_mem_name)
    hlines
  refine ⟨hpost, htarget, ?_⟩
  cases hp : q.isPost with
  | false => rw [q.body_of_get hp, q'.body_of_get (hpost ▸ hp)]
  | true =>
    obtain ⟨n, hn⟩ := List.exists_mem_of_ne_nil _ (q.length_of_post hp)
    have hq := q.length_eq n hn
    have hq' := q'.length_eq n (hfields ▸ hn)
    exact Option.some.inj (hq.symm.trans hq')

theorem pathAndQuery_suffix (target : List UInt8) : pathAndQuery target <:+ target := by
  unfold pathAndQuery
  split
  · exact (List.dropWhile_suffix _).trans (List.drop_suffix 7 target)
  · exact List.suffix_rfl

theorem drop_pathOffset (q : HttpRequest) :
    q.target.drop q.pathOffset = pathAndQuery q.target :=
  (List.suffix_iff_eq_drop.mp (pathAndQuery_suffix q.target)).symm

theorem pathAndQuery_eq (q : HttpRequest) (h : q.query ≠ []) :
    pathAndQuery q.target = q.path ++ 63 :: q.query := by
  have hsplit : q.path ++ (pathAndQuery q.target).dropWhile (· ≠ 63) = pathAndQuery q.target :=
    List.takeWhile_append_dropWhile
  have hquery : (pathAndQuery q.target).dropWhile (· ≠ 63) = 63 :: q.query := by
    have hhead := List.head?_dropWhile_not (fun c : UInt8 => decide (c ≠ 63))
      (pathAndQuery q.target)
    unfold query at h ⊢
    cases hd : (pathAndQuery q.target).dropWhile (· ≠ 63) with
    | nil => rw [hd] at h; exact absurd rfl h
    | cons c cs =>
      rw [hd] at hhead
      have hc : c = 63 := by simpa using hhead
      rw [hc]
      rfl
  rw [← hquery, hsplit]

theorem path_ne_nil (q : HttpRequest) : q.path ≠ [] := by
  have hhead := q.target_path
  unfold path
  cases ht : pathAndQuery q.target with
  | nil => rw [ht] at hhead; cases hhead
  | cons c cs =>
    rw [ht, List.head?_cons] at hhead
    obtain rfl := Option.some.inj hhead
    exact List.cons_ne_nil _ _

theorem head_drop (q : HttpRequest) :
    ∃ rest, q.head.drop (q.targetOffset + q.pathOffset) = pathAndQuery q.target ++ rest := by
  have hmethod : (if q.isPost then ascii "POST " else ascii "GET ").length = q.targetOffset := by
    unfold targetOffset
    cases q.isPost <;> rfl
  have hhead : q.head = (if q.isPost then ascii "POST " else ascii "GET ") ++
      (q.target ++ (ascii " HTTP/1.1" ++ 13 :: 10 :: headText (q.fields.map fieldLine))) := by
    rw [head, lines, headText_cons, requestLine, List.append_assoc, List.append_assoc]
  have hle : q.pathOffset ≤ q.target.length := Nat.sub_le _ _
  rw [hhead, ← List.drop_drop, List.drop_left' hmethod, List.drop_append_of_le_length hle,
    drop_pathOffset]
  exact ⟨_, rfl⟩

theorem slice_eq {text mid rest : List UInt8} {k : Nat} (h : text.drop k = mid ++ rest)
    (hne : mid ≠ []) (more : List UInt8) :
    k + mid.length ≤ text.length ∧ ((text ++ more).drop k).take mid.length = mid := by
  have hlen := congrArg List.length h
  have hpos := List.length_pos_of_ne_nil hne
  rw [List.length_drop, List.length_append] at hlen
  refine ⟨by omega, ?_⟩
  rw [List.drop_append_of_le_length (by omega), h, List.append_assoc, List.take_left]

theorem path_slice (q : HttpRequest) (more : List UInt8) :
    q.targetOffset + q.pathOffset + q.path.length ≤ q.head.length ∧
      ((q.head ++ more).drop (q.targetOffset + q.pathOffset)).take q.path.length = q.path := by
  obtain ⟨rest, hrest⟩ := q.head_drop
  have hsplit : q.path ++ (pathAndQuery q.target).dropWhile (· ≠ 63) = pathAndQuery q.target :=
    List.takeWhile_append_dropWhile
  rw [← hsplit, List.append_assoc] at hrest
  exact slice_eq hrest q.path_ne_nil more

theorem query_slice (q : HttpRequest) (h : q.query ≠ []) (more : List UInt8) :
    q.targetOffset + (q.pathOffset + q.path.length + 1) + q.query.length ≤ q.head.length ∧
      ((q.head ++ more).drop (q.targetOffset + (q.pathOffset + q.path.length + 1))).take
        q.query.length = q.query := by
  obtain ⟨rest, hrest⟩ := q.head_drop
  have hdrop : q.head.drop (q.targetOffset + (q.pathOffset + q.path.length + 1)) =
      q.query ++ rest := by
    have hk : q.targetOffset + (q.pathOffset + q.path.length + 1) =
        q.targetOffset + q.pathOffset + (q.path.length + 1) := by omega
    rw [hk, ← List.drop_drop, hrest, q.pathAndQuery_eq h, List.append_assoc, ← List.drop_drop,
      List.drop_left]
    rfl
  exact slice_eq hdrop h more

/-! ## 4. A parser that knows these heads and no others -/

def parsed (q : HttpRequest) : LlhttpResult where
  ok := true
  method := q.method
  content_length := UInt64.ofNat q.body.length
  on_url := some q.targetOffset
  url := ⟨decide (q.query ≠ []), (q.pathOffset, q.path.length),
    (q.pathOffset + q.path.length + 1, q.query.length)⟩

def knownHeads (qs : List HttpRequest) : Llhttp := fun url text =>
  match qs.find? fun q => q.head = text with
  | some q => q.parsed
  | none => ⟨false, 0, 0, none, url⟩

theorem parsed_parsedAs (q : HttpRequest) : ParsedAs q.parsed q where
  ok := rfl
  method := rfl
  content_length := by
    have h := q.body_lt
    exact UInt64.toNat_ofNat_of_lt (by rw [show UInt64.size = 2 ^ 64 from rfl]; omega)
  on_url := rfl
  path := rfl
  haveParam := decide_eq_true_iff
  query := fun _ => rfl

theorem parsed_eq {q q' : HttpRequest} (h : q.head = q'.head) : q.parsed = q'.parsed := by
  obtain ⟨hpost, htarget, hbody⟩ := head_inj h
  unfold parsed method targetOffset query pathOffset path
  rw [hpost, htarget, hbody]

theorem knownHeads_parses (qs : List HttpRequest) : ParsesHeads (knownHeads qs) qs := by
  intro q hq url
  have hsome : (qs.find? fun p => decide (p.head = q.head)).isSome := by
    rw [List.find?_isSome]
    exact ⟨q, hq, decide_eq_true rfl⟩
  obtain ⟨p, hp⟩ := Option.isSome_iff_exists.mp hsome
  have hhead : p.head = q.head := by simpa using List.find?_some hp
  have hresult : knownHeads qs url q.head = q.parsed := by
    rw [← parsed_eq hhead, knownHeads, hp]
  rw [hresult]
  exact q.parsed_parsedAs

theorem knownHeads_refuses {qs : List HttpRequest} {text : List UInt8}
    (h : ∀ q ∈ qs, q.head ≠ text) (url : HttpParserUrl) :
    (knownHeads qs url text).ok = false := by
  have hnone : (qs.find? fun p => decide (p.head = text)) = none := by
    rw [List.find?_eq_none]
    intro q hq
    simpa using h q hq
  unfold knownHeads
  rw [hnone]

end HttpRequest

end LuaServer
