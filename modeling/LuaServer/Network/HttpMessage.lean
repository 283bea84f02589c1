import LuaServer.Network.HttpTurn

/-!
# HttpMessage — requests of any method

A request of any method, with or without a `Content-Length`.  The connection skips the body that it
takes the request to have: of a POST request the length as an `int`, of any other request none.
-/

open Reasoning

namespace LuaServer

/-- `XX(num, name, string)` of `llhttp.h`. -/
def HTTP_METHOD_MAP : List (UInt8 × List UInt8) :=
  [(0, ascii "DELETE"), (1, ascii "GET"), (2, ascii "HEAD"), (3, ascii "POST"), (4, ascii "PUT"),
    (5, ascii "CONNECT"), (6, ascii "OPTIONS"), (7, ascii "TRACE"), (8, ascii "COPY"),
    (9, ascii "LOCK"), (10, ascii "MKCOL"), (11, ascii "MOVE"), (12, ascii "PROPFIND"),
    (13, ascii "PROPPATCH"), (14, ascii "SEARCH"), (15, ascii "UNLOCK"), (16, ascii "BIND"),
    (17, ascii "REBIND"), (18, ascii "UNBIND"), (19, ascii "ACL"), (20, ascii "REPORT"),
    (21, ascii "MKACTIVITY"), (22, ascii "CHECKOUT"), (23, ascii "MERGE"), (24, ascii "M-SEARCH"),
    (25, ascii "NOTIFY"), (26, ascii "SUBSCRIBE"), (27, ascii "UNSUBSCRIBE"), (28, ascii "PATCH"),
    (29, ascii "PURGE"), (30, ascii "MKCALENDAR"), (31, ascii "LINK"), (32, ascii "UNLINK"),
    (33, ascii "SOURCE"), (34, ascii "PRI"), (35, ascii "DESCRIBE"), (36, ascii "ANNOUNCE"),
    (37, ascii "SETUP"), (38, ascii "PLAY"), (39, ascii "PAUSE"), (40, ascii "TEARDOWN"),
    (41, ascii "GET_PARAMETER"), (42, ascii "SET_PARAMETER"), (43, ascii "REDIRECT"),
    (44, ascii "RECORD"), (45, ascii "FLUSH")]

/-- A well-formed request: its body has the length that its head announces, and is empty where the
head announces none. -/
structure HttpMessage where
  method : List UInt8
  target : List UInt8
  fields : List (List UInt8 × List UInt8)
  body : List UInt8
  method_text : method ≠ [] ∧ ∀ c ∈ method, IsNameChar c
  target_ne : target ≠ []
  target_text : ∀ c ∈ target, IsTargetChar c
  name_text : ∀ field ∈ fields, field.1 ≠ [] ∧ ∀ c ∈ field.1, IsNameChar c
  value_text : ∀ field ∈ fields, ∀ c ∈ field.2, IsValueChar c
  length_eq : ∀ n ∈ contentLengths fields, n = some body.length
  body_eq : contentLengths fields = [] → body = []
  not_chunked : ∀ field ∈ fields, lowerCase field.1 ≠ ascii "transfer-encoding"

/-- The call for a request with the method of this one. -/
def HttpReaction.Answers : HttpReaction → HttpMessage → Prop
  | .onGet _ _, q => q.method = ascii "GET"
  | .onPost _ _, q => q.method = ascii "POST"
  | .onOther _, q => q.method ≠ ascii "GET" ∧ q.method ≠ ascii "POST"
  | .close, _ => False

namespace HttpMessage

def lines (q : HttpMessage) : List (List UInt8) :=
  (q.method ++ 32 :: (q.target ++ ascii " HTTP/1.1")) :: q.fields.map fieldLine

def head (q : HttpMessage) : List UInt8 := headText q.lines

def bytes (q : HttpMessage) : List UInt8 := q.head ++ q.body

def stream (qs : List HttpMessage) : List UInt8 := (qs.map bytes).flatten

/-- The heads of the requests, with the places where they begin. -/
def headPlaces (start : Nat) : List HttpMessage → List (Nat × List UInt8)
  | [] => []
  | q :: qs => (start, q.head) :: headPlaces (start + q.bytes.length) qs

/-- What `llhttp` takes from the heads of these requests, where it accepts them. -/
def Reports (llhttp : Llhttp) (qs : List HttpMessage) : Prop :=
  ∀ q ∈ qs, ∀ url, (llhttp url q.head).ok = true →
    ((llhttp url q.head).method, q.method) ∈ HTTP_METHOD_MAP ∧
      (llhttp url q.head).content_length.toNat = q.body.length

/-- The length that the connection takes the body to have. -/
def residue (q : HttpMessage) : Int :=
  if q.method = ascii "POST" then toInt32 q.body.length else 0

/-- A POST request with a body shorter than `2 ^ 31`, or another request without a body. -/
def IsDelimited (q : HttpMessage) : Prop :=
  if q.method = ascii "POST" then q.body.length < 2 ^ 31 else q.body = []

instance (q : HttpMessage) : Decidable q.IsDelimited :=
  inferInstanceAs (Decidable (if q.method = ascii "POST" then q.body.length < 2 ^ 31 else q.body = []))

theorem residue_eq_iff (q : HttpMessage) : q.residue = q.body.length ↔ q.IsDelimited := by
  unfold residue IsDelimited
  split
  · have hbounds := toInt32_bounds q.body.length
    constructor
    · intro h
      omega
    · exact toInt32_of_lt
  · rw [← List.length_eq_zero_iff]
    omega

theorem residue_le (q : HttpMessage) : q.residue ≤ q.body.length := by
  unfold residue
  split
  · by_cases hlt : q.body.length < 2 ^ 31
    · exact (toInt32_of_lt hlt).le
    · have hbounds := toInt32_bounds q.body.length
      omega
  · exact Int.natCast_nonneg _

theorem isHead (q : HttpMessage) : IsHead q.head := by
  have hversion : ∀ c ∈ ascii " HTTP/1.1", ¬ c < 32 := by decide +kernel
  -- the only control character in a line is the tab
  have htext : ∀ l ∈ q.lines, ∀ c : UInt8, c < 32 → c ≠ 9 → c ∉ l := by
    intro l hl c hc hne hmem
    rcases List.mem_cons.mp hl with rfl | hl
    · rcases List.mem_append.mp hmem with hmem | hmem
      · exact HttpRequest.not_isNameChar hc (q.method_text.2 c hmem)
      rcases List.mem_cons.mp hmem with rfl | hmem
      · exact absurd hc (by decide)
      rcases List.mem_append.mp hmem with hmem | hmem
      · exact HttpRequest.not_isTargetChar hc (q.target_text c hmem)
      · exact hversion c hmem hc
    · obtain ⟨field, hfield, rfl⟩ := List.mem_map.mp hl
      exact HttpRequest.not_mem_fieldLine (q.name_text field hfield).2 (q.value_text field hfield)
        hc hne hmem
  apply isHead_of_lines (List.cons_ne_nil _ _)
  intro l hl
  refine ⟨⟨?_, htext l hl 13 (by decide) (by decide)⟩, htext l hl 0 (by decide) (by decide)⟩
  rcases List.mem_cons.mp hl with rfl | hl
  · simp
  · obtain ⟨field, -, rfl⟩ := List.mem_map.mp hl
    simp [fieldLine]

theorem stream_cons (q : HttpMessage) (qs : List HttpMessage) :
    stream (q :: qs) = q.head ++ (q.body ++ stream qs) := by
  rw [stream, List.map_cons, List.flatten_cons, bytes, List.append_assoc]
  rfl

theorem bytes_length (q : HttpMessage) : q.bytes.length = q.head.length + q.body.length :=
  List.length_append

theorem stream_append (before qs : List HttpMessage) :
    stream (before ++ qs) = stream before ++ stream qs := by
  simp only [stream, List.map_append, List.flatten_append]

theorem stream_snoc_length (before : List HttpMessage) (q : HttpMessage) :
    (stream (before ++ [q])).length = (stream before).length + q.bytes.length := by
  rw [stream_append, List.length_append, stream_cons, bytes_length, List.length_append,
    List.length_append]
  rfl

theorem headPlaces_append (start : Nat) (before qs : List HttpMessage) :
    headPlaces start (before ++ qs) =
      headPlaces start before ++ headPlaces (start + (stream before).length) qs := by
  induction before generalizing start with
  | nil => rfl
  | cons q before ih =>
    rw [List.cons_append, headPlaces, headPlaces, List.cons_append, ih, stream_cons, bytes_length]
    simp only [List.length_append]
    congr 3
    omega

theorem headPlaces_length (start : Nat) (qs : List HttpMessage) :
    (headPlaces start qs).length = qs.length := by
  induction qs generalizing start with
  | nil => rfl
  | cons q qs ih => rw [headPlaces, List.length_cons, List.length_cons, ih]

end HttpMessage

/-- The two methods that the connection knows by their numbers. -/
theorem methodNumber_iff {m : UInt8 × List UInt8} (hm : m ∈ HTTP_METHOD_MAP) :
    (m.1 = HTTP_POST ↔ m.2 = ascii "POST") ∧ (m.1 = HTTP_GET ↔ m.2 = ascii "GET") := by
  have hmap : ∀ m ∈ HTTP_METHOD_MAP,
      (m.1 = HTTP_POST ↔ m.2 = ascii "POST") ∧ (m.1 = HTTP_GET ↔ m.2 = ascii "GET") := by
    decide +kernel
  exact hmap m hm

theorem HttpConnect.completeReaction_answers {c : HttpConnect} {q : HttpMessage}
    (h : (c.mParser.method, q.method) ∈ HTTP_METHOD_MAP) : c.completeReaction.Answers q := by
  obtain ⟨hpost, hget⟩ := methodNumber_iff h
  unfold completeReaction
  split
  · next hp => exact hpost.mp hp
  · next hnp =>
    split
    · next hg => exact hget.mp hg
    · next hng => exact ⟨fun hname => hng (hget.mpr hname), fun hname => hnp (hpost.mpr hname)⟩

end LuaServer
