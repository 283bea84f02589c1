import LuaServer.Network.WebSocketFraming

/-!
# WebSocketHandshake — an upgrade request and the frames behind it

`parseHandshake` reads the request from one read, and `respondHandshake` answers it through
`Tools::format`, which has no result: no request is answered.  With a `format` that prints, a
connection would answer and go on with the frames when the first read is the request, no more and no
less; otherwise it closes, or what is left of the request is taken for frames, or the first frames
are lost.
-/

open Reasoning

namespace LuaServer

/-- A text that can stand in a line of the request. -/
def IsText (bs : List UInt8) : Prop := 0 ∉ bs ∧ 10 ∉ bs

/-- A header line: any blanks may stand between the colon and the value. -/
structure HeaderLine where
  name : List UInt8
  blanks : List UInt8
  value : List UInt8
  name_text : IsText name ∧ 58 ∉ name
  blanks_eq : ∀ b ∈ blanks, b = 32 ∨ b = 9
  value_text : IsText value

namespace HeaderLine

def field (h : HeaderLine) : List UInt8 × List UInt8 := (h.name, h.value)

def render (h : HeaderLine) : List UInt8 := h.name ++ 58 :: (h.blanks ++ (h.value ++ [13]))

end HeaderLine

structure UpgradeRequest where
  -- what follows GET in the first line
  target : List UInt8
  headers : List HeaderLine
  target_text : IsText target
  has_host : ∃ h ∈ headers, h.name = ascii "Host"
  has_key : ∃ h ∈ headers, h.name = ascii "Sec-WebSocket-Key"

namespace UpgradeRequest

def headerLines (hs : List HeaderLine) : List UInt8 := (hs.map fun h => h.render ++ [10]).flatten

def firstLine (r : UpgradeRequest) : List UInt8 := ascii "GET" ++ (r.target ++ [13])

def render (r : UpgradeRequest) : List UInt8 :=
  r.firstLine ++ 10 :: (headerLines r.headers ++ [13, 10])

/-- The value of the last header of a name. -/
def value (r : UpgradeRequest) (name : List UInt8) : Option (List UInt8) :=
  (r.headers.map HeaderLine.field).reverse.lookup name

/-- The spelling that `parseHandshake` looks for. -/
def Spelled (r : UpgradeRequest) : Prop := ∀ h ∈ r.headers, h.blanks = [32]

/-! ## 1. Lines -/

theorem find_append (name rest : List UInt8) (h : 58 ∉ name) :
    find (ascii ": ") (name ++ (ascii ": " ++ rest)) = some name.length := by
  induction name with
  | nil =>
    have hpre : ascii ": " <+: 58 :: 32 :: rest := List.prefix_append [58, 32] rest
    show find (ascii ": ") (58 :: 32 :: rest) = some 0
    rw [find, if_pos hpre]
  | cons c cs ih =>
    rw [List.mem_cons, not_or] at h
    have hne : ¬ ascii ": " <+: c :: (cs ++ (ascii ": " ++ rest)) := by
      intro hpre
      exact h.1 (List.cons_prefix_cons.mp hpre).1
    rw [List.cons_append, find, if_neg hne, ih h.2]
    rfl

theorem render_spelled {h : HeaderLine} (hspelled : h.blanks = [32]) :
    h.render = h.name ++ (ascii ": " ++ (h.value ++ [13])) := by
  rw [HeaderLine.render, hspelled]
  rfl

theorem headerField_render {h : HeaderLine} (hspelled : h.blanks = [32]) :
    headerField h.render = h.field := by
  have hrender := render_spelled hspelled
  have hlen : h.render.length = h.name.length + 2 + (h.value.length + 1) := by
    rw [hrender]
    simp only [List.length_append, List.length_singleton]
    show h.name.length + (2 + (h.value.length + 1)) = _
    omega
  have hfind : find (ascii ": ") h.render = some h.name.length := by
    rw [hrender, find_append _ _ h.name_text.2]
  have htake : h.render.take h.name.length = h.name := List.take_left
  have hdrop : h.render.drop (h.name.length + 2) = h.value ++ [13] := by
    rw [← List.drop_drop, hrender, List.drop_left]
    rfl
  have hvalue : h.render.length - 1 - (h.name.length + 2) = h.value.length := by omega
  rw [headerField, hfind]
  simp only [htake, hdrop, hvalue, List.take_left]
  rfl

theorem not_mem_headerLine {b : UInt8} {h : HeaderLine} (hname : b ∉ h.name)
    (hvalue : b ∉ h.value) (hb : b ∉ [58, 32, 9, 13]) : b ∉ h.render := by
  simp only [List.mem_cons, List.not_mem_nil, or_false, not_or] at hb
  obtain ⟨hcolon, hspace, htab, hcr⟩ := hb
  intro hmem
  rcases List.mem_append.mp hmem with hmem | hmem
  · exact hname hmem
  rcases List.mem_cons.mp hmem with hmem | hmem
  · exact hcolon hmem
  rcases List.mem_append.mp hmem with hmem | hmem
  · exact (h.blanks_eq _ hmem).elim hspace htab
  rcases List.mem_append.mp hmem with hmem | hmem
  · exact hvalue hmem
  · exact hcr (List.mem_singleton.mp hmem)

theorem headerLoop_headerLines {hs : List HeaderLine} {fuel : Nat}
    (hspelled : ∀ h ∈ hs, h.blanks = [32]) (hfuel : hs.length + 1 ≤ fuel)
    (acc : List (List UInt8 × List UInt8)) :
    headerLoop fuel (headerLines hs ++ [13, 10]) acc =
      some ((hs.map HeaderLine.field).reverse ++ acc) := by
  induction hs generalizing fuel acc with
  | nil =>
    obtain ⟨n, rfl⟩ : ∃ n, fuel = n + 1 := ⟨fuel - 1, by omega⟩
    -- the blank line, and the end of the stream
    show headerLoop (n + 1) [13, 10] acc = some acc
    have hline : getline [13, 10] = some ([13], []) := by decide
    rw [headerLoop, hline]
    cases n <;> rfl
  | cons h hs ih =>
    obtain ⟨n, rfl⟩ : ∃ n, fuel = n + 1 := ⟨fuel - 1, by omega⟩
    obtain ⟨hspelled₀, hspelled'⟩ := List.forall_mem_cons.mp hspelled
    have hstream : headerLines (h :: hs) ++ [13, 10] =
        h.render ++ 10 :: (headerLines hs ++ [13, 10]) := by
      simp only [headerLines, List.map_cons, List.flatten_cons, List.append_assoc]
      rfl
    have hline : getline (h.render ++ 10 :: (headerLines hs ++ [13, 10])) =
        some (h.render, headerLines hs ++ [13, 10]) :=
      getline_append (not_mem_headerLine h.name_text.1.2 h.value_text.2 (by decide))
    have hrender := render_spelled hspelled₀
    have hlast : h.render.getLast? = some 13 := by
      rw [hrender, ← List.append_assoc, ← List.append_assoc, List.getLast?_concat]
    have hlen : 3 ≤ h.render.length := by
      have htwo : (ascii ": ").length = 2 := rfl
      rw [hrender]
      simp only [List.length_append, List.length_singleton]
      omega
    have hne : h.render ≠ [13] := by
      intro heq
      rw [heq, List.length_singleton] at hlen
      omega
    have hstep : headerLoop (n + 1) (headerLines (h :: hs) ++ [13, 10]) acc =
        headerLoop n (headerLines hs ++ [13, 10]) (headerField h.render :: acc) := by
      rw [hstream, headerLoop, hline]
      cases hcons : h.render with
      | nil => rw [hcons] at hlen; simp at hlen
      | cons c cs =>
        rw [hcons] at hlast hne
        simp only
        rw [if_neg]
        rintro (heq | heq)
        · exact hne heq
        · exact heq hlast
    rw [hstep, headerField_render hspelled₀,
      ih hspelled' (by rw [List.length_cons] at hfuel; omega), List.map_cons, List.reverse_cons,
      List.append_assoc]
    rfl

/-! ## 2. The request -/

theorem lookup_isSome {name : List UInt8} {hs : List (List UInt8 × List UInt8)}
    (h : ∃ v, (name, v) ∈ hs) : ∃ v, hs.lookup name = some v := by
  obtain ⟨v, hv⟩ := h
  induction hs with
  | nil => cases hv
  | cons x xs ih =>
    obtain ⟨n, w⟩ := x
    by_cases hn : name = n
    · exact ⟨w, by rw [List.lookup_cons, hn]; simp⟩
    · rw [List.lookup_cons]
      have hbeq : (name == n) = false := by simpa using hn
      rw [hbeq]
      apply ih
      rcases List.mem_cons.mp hv with heq | hmem
      · exact absurd (congrArg Prod.fst heq) hn
      · exact hmem

theorem hostAndKey (r : UpgradeRequest) : ∃ hk : List UInt8 × List UInt8,
    r.value (ascii "Host") = some hk.1 ∧ r.value (ascii "Sec-WebSocket-Key") = some hk.2 := by
  have hmem : ∀ name, (∃ h ∈ r.headers, h.name = name) →
      ∃ v, (name, v) ∈ (r.headers.map HeaderLine.field).reverse := by
    rintro name ⟨h, hh, rfl⟩
    exact ⟨h.value, List.mem_reverse.mpr (List.mem_map_of_mem hh)⟩
  obtain ⟨host, hhost⟩ := lookup_isSome (hmem _ r.has_host)
  obtain ⟨key, hkey⟩ := lookup_isSome (hmem _ r.has_key)
  exact ⟨(host, key), hhost, hkey⟩

theorem zero_not_mem_render (r : UpgradeRequest) : 0 ∉ r.render := by
  intro hmem
  rcases List.mem_append.mp hmem with hmem | hmem
  · rcases List.mem_append.mp hmem with hmem | hmem
    · exact absurd hmem (by decide)
    rcases List.mem_append.mp hmem with hmem | hmem
    · exact r.target_text.1 hmem
    · exact absurd hmem (by decide)
  rcases List.mem_cons.mp hmem with hmem | hmem
  · exact absurd hmem (by decide)
  rcases List.mem_append.mp hmem with hmem | hmem
  · obtain ⟨l, hl, hmem⟩ := List.mem_flatten.mp hmem
    obtain ⟨h, hh, rfl⟩ := List.mem_map.mp hl
    rcases List.mem_append.mp hmem with hmem | hmem
    · exact not_mem_headerLine h.name_text.1.1 h.value_text.1 (by decide) hmem
    · exact absurd hmem (by decide)
  · exact absurd hmem (by decide)

theorem headers_length_le (hs : List HeaderLine) : hs.length ≤ (headerLines hs).length := by
  induction hs with
  | nil => exact Nat.zero_le _
  | cons h hs ih =>
    simp only [headerLines, List.map_cons, List.flatten_cons, List.length_append, List.length_cons]
    have : (headerLines hs).length = ((hs.map fun h => h.render ++ [10]).flatten).length := rfl
    omega

theorem parseHandshake_render {r : UpgradeRequest} (hspelled : r.Spelled) (n len : Nat)
    (hlen : 2 ≤ len) {host key : List UInt8} (hhost : r.value (ascii "Host") = some host)
    (hkey : r.value (ascii "Sec-WebSocket-Key") = some key) :
    parseHandshake (r.render ++ List.replicate (n + 1) 0) len = some (some (host, key)) := by
  have hfirst : 10 ∉ r.firstLine := by
    intro hmem
    rcases List.mem_append.mp hmem with hmem | hmem
    · exact absurd hmem (by decide)
    rcases List.mem_append.mp hmem with hmem | hmem
    · exact r.target_text.2 hmem
    · exact absurd hmem (by decide)
  have hline : getline r.render = some (r.firstLine, headerLines r.headers ++ [13, 10]) :=
    getline_append hfirst
  have hget : ¬ ¬ ascii "GET" <+: r.firstLine := not_not.mpr (List.prefix_append _ _)
  -- each header line takes at least one byte, so the loop is not given up
  have hfuel : r.headers.length + 1 ≤ (headerLines r.headers ++ [13, 10]).length := by
    have := headers_length_le r.headers
    rw [List.length_append]
    show r.headers.length + 1 ≤ (headerLines r.headers).length + 2
    omega
  have hloop := headerLoop_headerLines hspelled hfuel []
  rw [List.append_nil] at hloop
  rw [UpgradeRequest.value] at hhost hkey
  rw [parseHandshake, if_neg (by omega), List.replicate_succ, cString_append r.zero_not_mem_render]
  simp only [Option.bind_eq_bind, Option.bind_some, hline, if_neg hget, hloop, hhost, hkey]
  rfl

end UpgradeRequest

namespace WebSocketConnect

/-! ## 3. The answer -/

/-- What comes before the value of `Sec-WebSocket-Accept`, and what comes behind it. -/
def beforeAccept : List UInt8 :=
  ascii "HTTP/1.1 101 Switching Protocols\r\n" ++ ascii "Upgrade: websocket\r\n" ++
    ascii "Connection: Upgrade\r\n" ++ ascii "Sec-WebSocket-Accept: "

def behindAccept (host : List UInt8) : List UInt8 :=
  ascii "\r\nWebSocket-Location: ws://" ++ (host ++
    ascii "/\r\nWebSocket-Protocol: WebManagerSocket\r\n\r\n")

/-- The text that `ackHandshake` calls for. -/
def answer (accept host : List UInt8) : List UInt8 := beforeAccept ++ (accept ++ behindAccept host)

theorem printed_ackHandshake (accept host : List UInt8) :
    Tools.printed ackHandshake [accept, host] = some (answer accept host) := by
  have hformat : ackHandshake = beforeAccept ++ 37 :: 115 ::
      (ascii "\r\nWebSocket-Location: ws://" ++ 37 :: 115 ::
        ascii "/\r\nWebSocket-Protocol: WebManagerSocket\r\n\r\n") := by
    decide +kernel
  rw [hformat, Tools.printed_append (by decide +kernel), Tools.printed_argument,
    Tools.printed_append (by decide +kernel), Tools.printed_argument,
    Tools.printed_text (by decide +kernel)]
  rfl

/-- The source has no result for the answer. -/
theorem respondHandshake_format (base64Sha1 : List UInt8 → List UInt8) (strKey strHost : List UInt8) :
    respondHandshake Tools.format base64Sha1 strKey strHost = none := by
  have hne : ackHandshake ≠ [] := by decide
  rw [respondHandshake, Tools.format_eq, if_neg hne]

def reply (accept host : List UInt8) : SendData :=
  ((BasePacket.construct 0 []).append (answer accept host)).sendData

theorem accepted_frames (accept host key : List UInt8) :
    (fresh.accepted host key (answer accept host ++ [0])).frames =
      (none, [.write (reply accept host), .onHandshake]) := by
  rw [accepted, List.length_append, List.length_singleton, Nat.add_sub_cancel, List.take_left]
  rfl

/-! ## 4. Reads and reactions -/

section
variable (format : Tools.Format) (base64Sha1 : List UInt8 → List UInt8) {size : UInt32}

theorem echoRead_handshake {s : TcpSocketBase size WebSocketConnect}
    (hh : s.derived.m_isHandshake = false) (fuel : Nat) (r : Read size) :
    echoRead (onMsgbuffer format base64Sha1) fuel s r =
      (s.derived.shakeHands format base64Sha1 (s.mBuffer.receive r).getReadPointer
        (s.mBuffer.receive r).getActiveSize).map fun c => ⟨(s.mBuffer.receive r).reset, c⟩ := by
  rw [echoRead, onMsgbuffer, if_pos hh, Option.map_map]
  rfl

theorem echoRead_reactions {s t : TcpSocketBase size WebSocketConnect} (hs : s.AtRest)
    {r : Read size} (h : ∃ fuel, echoRead (onMsgbuffer format base64Sha1) fuel s r = some t) :
    s.derived.frames.2 <+: t.derived.frames.2 ∧ t.AtRest := by
  cases hh : s.derived.m_isHandshake with
  | false =>
    obtain ⟨fuel, hf⟩ := h
    rw [echoRead_handshake format base64Sha1 hh] at hf
    obtain ⟨c, hc, rfl⟩ := Option.map_eq_some_iff.mp hf
    refine ⟨?_, rfl⟩
    rcases shakeHands_cases hc with ⟨-, rfl⟩ | ⟨host, key, msg, -, -, rfl⟩
    · exact List.prefix_append _ _
    · exact List.prefix_append _ _
  | true =>
    obtain ⟨f, hf, rfl⟩ := (echoRead_frames_iff format base64Sha1 hh hs r).mp h
    exact ⟨PacketReader.feeds_report hf, rfl⟩

theorem echoReads_reactions {s t : TcpSocketBase size WebSocketConnect} (hs : s.AtRest)
    {rs : List (Read size)} (h : EchoReads (onMsgbuffer format base64Sha1) s rs t) :
    s.derived.frames.2 <+: t.derived.frames.2 := by
  induction rs generalizing s with
  | nil => exact h ▸ List.prefix_rfl
  | cons r rs ih =>
    obtain ⟨m, hm, ht⟩ := h
    obtain ⟨hgrow, hrest⟩ := echoRead_reactions format base64Sha1 hs hm
    exact hgrow.trans (ih hrest ht)

/-- A read of the request alone is answered if there is a text for the answer. -/
theorem echoRead_request {r : UpgradeRequest} (hspelled : r.Spelled) {host key : List UInt8}
    (hhost : r.value (ascii "Host") = some host)
    (hkey : r.value (ascii "Sec-WebSocket-Key") = some key) {r₀ : Read size}
    (hbytes : r₀.bytes = r.render) (hroom : r.render.length < size.toNat) (fuel : Nat) :
    echoRead (onMsgbuffer format base64Sha1) fuel (TcpSocketBase.fresh size fresh) r₀ =
      (respondHandshake format base64Sha1 key host).map fun msg =>
        ⟨((MessageBuffer.create size).receive r₀).reset, fresh.accepted host key msg⟩ := by
  obtain ⟨hpointer, hsize⟩ := MessageBuffer.create_receive r₀
  have hlen : 2 ≤ r.render.length := by
    rw [UpgradeRequest.render, UpgradeRequest.firstLine, List.length_append, List.length_append]
    have : (ascii "GET").length = 3 := rfl
    omega
  have hparse : parseHandshake ((MessageBuffer.create size).receive r₀).getReadPointer
      ((MessageBuffer.create size).receive r₀).getActiveSize = some (some (host, key)) := by
    have hn : size.toNat - r.render.length = (size.toNat - r.render.length - 1) + 1 := by omega
    rw [hpointer, hsize, hbytes, hn]
    exact UpgradeRequest.parseHandshake_render hspelled _ _ hlen hhost hkey
  rw [echoRead_handshake format base64Sha1 rfl, shakeHands]
  show (Option.bind (parseHandshake ((MessageBuffer.create size).receive r₀).getReadPointer
    ((MessageBuffer.create size).receive r₀).getActiveSize) _).map _ = _
  rw [hparse, Option.bind_some, Option.map_map]
  rfl

/-- Whatever the reads, a connection of the source that comes back from them has only refused. -/
theorem echoReads_refused {s t : TcpSocketBase size WebSocketConnect} {rs : List (Read size)}
    (hs : s.derived.m_isHandshake = false)
    (h : EchoReads (onMsgbuffer Tools.format base64Sha1) s rs t) :
    t.derived.frames.2 = s.derived.frames.2 ++ List.replicate rs.length .onClose := by
  induction rs generalizing s with
  | nil =>
    obtain rfl : t = s := h
    exact (List.append_nil _).symm
  | cons r rs ih =>
    obtain ⟨m, ⟨fuel, hm⟩, ht⟩ := h
    rw [echoRead_handshake Tools.format base64Sha1 hs] at hm
    obtain ⟨c, hc, rfl⟩ := Option.map_eq_some_iff.mp hm
    rcases shakeHands_cases hc with ⟨-, rfl⟩ | ⟨host, key, msg, -, hmsg, -⟩
    · rw [ih (s := ⟨(s.mBuffer.receive r).reset, s.derived.refused⟩) hs ht]
      show s.derived.frames.2 ++ [.onClose] ++ _ = _
      rw [List.append_assoc]
      rfl
    · -- an accepted request needs a text for the answer
      rw [respondHandshake_format] at hmsg
      cases hmsg

end

def frameBytes (fs : List WebSocketFrame) : List UInt8 := (fs.map WebSocketFrame.encode).flatten

/-- The request has been answered once, `onHandshake` called once, and the frame loop has reacted to
all bytes of the frames and to no others. -/
def Answered (base64Sha1 : List UInt8 → List UInt8) (r : UpgradeRequest) (fs : List WebSocketFrame)
    (d : WebSocketConnect) : Prop :=
  ∃ host key, r.value (ascii "Host") = some host ∧
    r.value (ascii "Sec-WebSocket-Key") = some key ∧
    Feeds WebSocketPacket.frameReader.turn
      (none, [.write (reply (base64Sha1 (key ++ s_key)) host), .onHandshake]) (frameBytes fs)
      d.frames ∧ d.framed = frameBytes fs

/-! ## 5. Cuts of a request and frames -/

section
variable (base64Sha1 : List UInt8 → List UInt8) {size : UInt32} {r : UpgradeRequest}
  {fs : List WebSocketFrame}

theorem Answered.reactions {d : WebSocketConnect} (h : Answered base64Sha1 r fs d) :
    ∃ data rest, d.frames.2 = .write data :: .onHandshake :: rest := by
  obtain ⟨host, key, -, -, hfeeds, -⟩ := h
  obtain ⟨rest, hrest⟩ := PacketReader.feeds_report hfeeds
  exact ⟨_, rest, hrest.symm⟩

theorem not_answered_of_format {rs : List (Read size)} {t : TcpSocketBase size WebSocketConnect}
    (ht : EchoReads (onMsgbuffer Tools.format base64Sha1) (TcpSocketBase.fresh size fresh) rs t) :
    ¬ Answered base64Sha1 r fs t.derived := by
  intro hanswered
  obtain ⟨data, rest, hreactions⟩ := hanswered.reactions
  have hrefused : t.derived.frames.2 = List.replicate rs.length .onClose :=
    echoReads_refused base64Sha1 rfl ht
  have hmem : WebSocketReaction.onHandshake ∈ List.replicate rs.length .onClose := by
    rw [← hrefused, hreactions]
    exact List.mem_cons_of_mem _ List.mem_cons_self
  cases List.eq_of_mem_replicate hmem

/-- However a request and the frames behind it are cut, they are not answered. -/
theorem never_answered (r : UpgradeRequest) (fs : List WebSocketFrame)
    (cut : Cut size (r.render ++ frameBytes fs)) :
    ¬ ∃ t, EchoReads (onMsgbuffer Tools.format base64Sha1) (TcpSocketBase.fresh size fresh)
        cut.reads t ∧ Answered base64Sha1 r fs t.derived := by
  rintro ⟨t, ht, hanswered⟩
  exact not_answered_of_format base64Sha1 ht hanswered

end

def shortRequest : UpgradeRequest where
  target := ascii " / HTTP/1.1"
  headers := [⟨ascii "Host", [32], ascii "h", by unfold IsText; decide,
      fun _ hb => .inl (List.mem_singleton.mp hb), by unfold IsText; decide⟩,
    ⟨ascii "Sec-WebSocket-Key", [32], ascii "k", by unfold IsText; decide,
      fun _ hb => .inl (List.mem_singleton.mp hb), by unfold IsText; decide⟩]
  target_text := by unfold IsText; decide
  has_host := ⟨_, List.mem_cons_self, rfl⟩
  has_key := ⟨_, List.mem_cons_of_mem _ List.mem_cons_self, rfl⟩

/-- The request in a single read. -/
def wholeRequestCut : Cut MESSAGE_BUFFER_SIZE (shortRequest.render ++ frameBytes []) where
  reads := [⟨shortRequest.render, by decide, by decide⟩]
  flatten_eq := by decide

/-- The read does not come back, and the request is not answered. -/
theorem whole_request_not_answered :
    (∀ fuel, echoRead (onMsgbuffer Tools.format fun _ => []) fuel
        (TcpSocketBase.fresh MESSAGE_BUFFER_SIZE fresh)
        ⟨shortRequest.render, by decide, by decide⟩ = none) ∧
      ¬ ∃ t, EchoReads (onMsgbuffer Tools.format fun _ => [])
          (TcpSocketBase.fresh MESSAGE_BUFFER_SIZE fresh) wholeRequestCut.reads t ∧
        Answered (fun _ => []) shortRequest [] t.derived := by
  constructor
  · intro fuel
    have hspelled : shortRequest.Spelled := by
      unfold UpgradeRequest.Spelled
      decide
    have hhost : shortRequest.value (ascii "Host") = some (ascii "h") := by decide
    have hkey : shortRequest.value (ascii "Sec-WebSocket-Key") = some (ascii "k") := by decide
    have hroom : shortRequest.render.length < MESSAGE_BUFFER_SIZE.toNat := by decide
    rw [echoRead_request Tools.format (fun _ => []) hspelled hhost hkey rfl hroom fuel,
      respondHandshake_format, Option.map_none]
  · rintro ⟨t, ht, hanswered⟩
    exact not_answered_of_format (fun _ => []) ht hanswered

section
variable (format : Tools.Format) (base64Sha1 : List UInt8 → List UInt8) {size : UInt32}
  {r : UpgradeRequest} {fs : List WebSocketFrame}

/-- The first read is the request and leaves room for a NUL behind it. -/
def ReadAlone (r : UpgradeRequest) (reads : List (Read size)) : Prop :=
  ∃ r₀ rs, reads = r₀ :: rs ∧ r₀.bytes = r.render ∧ r.render.length < size.toNat

/-- The answer is printed, and a NUL behind it. -/
def Prints : Prop :=
  ∀ args text, Tools.printed ackHandshake args = some text →
    format ackHandshake args = some (text ++ [0])

/-- The C string of a request that fills the buffer goes past the end of the storage. -/
theorem parseHandshake_full {r₀ : Read size} (hbytes : r₀.bytes = r.render)
    (hfull : ¬ r.render.length < size.toNat) :
    parseHandshake ((MessageBuffer.create size).receive r₀).getReadPointer
      ((MessageBuffer.create size).receive r₀).getActiveSize = none := by
  have hle := r₀.length_le
  obtain ⟨hpointer, hsize⟩ := MessageBuffer.create_receive r₀
  have hnone : size.toNat - r₀.bytes.length = 0 := by
    rw [hbytes]
    omega
  rw [hnone, List.replicate_zero, List.append_nil, hbytes] at hpointer
  have hlen : ¬ ((MessageBuffer.create size).receive r₀).getActiveSize < 2 := by
    rw [hsize, hbytes, UpgradeRequest.render, UpgradeRequest.firstLine, List.length_append,
      List.length_append]
    have : (ascii "GET").length = 3 := rfl
    omega
  rw [parseHandshake, if_neg hlen, hpointer, cString_eq_none r.zero_not_mem_render]
  rfl

/-- Whatever the format makes of the answer, and however the request is spelled. -/
theorem readAlone_of_answered (cut : Cut size (r.render ++ frameBytes fs))
    {t : TcpSocketBase size WebSocketConnect}
    (ht : EchoReads (onMsgbuffer format base64Sha1) (TcpSocketBase.fresh size fresh) cut.reads t)
    (hanswered : Answered base64Sha1 r fs t.derived) : ReadAlone r cut.reads := by
  obtain ⟨data, rest, hreactions⟩ := hanswered.reactions
  obtain ⟨host, key, -, -, -, hframed⟩ := hanswered
  cases hreads : cut.reads with
  | nil =>
    -- without a read there is no reaction
    rw [hreads] at ht
    obtain rfl : t = TcpSocketBase.fresh size fresh := ht
    cases hreactions
  | cons r₀ rs =>
    rw [hreads] at ht
    obtain ⟨m, ⟨fuel, hm⟩, ht⟩ := ht
    rw [echoRead_handshake format base64Sha1 rfl] at hm
    obtain ⟨c, hc, rfl⟩ := Option.map_eq_some_iff.mp hm
    have hatRest : ∀ c, TcpSocketBase.AtRest (⟨((MessageBuffer.create size).receive r₀).reset, c⟩ :
      TcpSocketBase size WebSocketConnect) := fun _ => rfl
    rcases shakeHands_cases hc with ⟨-, rfl⟩ | ⟨host', key', msg, hparsed, -, rfl⟩
    · -- the first reaction would be `onClose`
      obtain ⟨rest', hrest'⟩ := echoReads_reactions format base64Sha1 (hatRest _) ht
      rw [hreactions] at hrest'
      cases hrest'
    · obtain ⟨g, -, hg⟩ := (echoReads_frames_iff format base64Sha1 rfl (hatRest _) rs t.derived).mp
        ⟨t, ht, rfl⟩
      have hrest : (rs.map Read.bytes).flatten = frameBytes fs := by
        rw [← hframed, hg]
        rfl
      have hbytes : r₀.bytes = r.render := by
        have hflat := cut.flatten_eq
        rw [hreads, List.map_cons, List.flatten_cons, hrest] at hflat
        exact List.append_cancel_right hflat
      refine ⟨r₀, rs, rfl, hbytes, ?_⟩
      by_contra hfull
      exact absurd ((parseHandshake_full hbytes hfull).symm.trans hparsed) (by simp)

/-- With a format that prints, a connection does what the request and the frames call for exactly
when it reads the request alone and its frame loop gets through the frames. -/
theorem answered_iff_readAlone (hprints : Prints format) (hspelled : r.Spelled)
    (cut : Cut size (r.render ++ frameBytes fs)) :
    (∃ t, EchoReads (onMsgbuffer format base64Sha1) (TcpSocketBase.fresh size fresh) cut.reads t ∧
      Answered base64Sha1 r fs t.derived) ↔
      ReadAlone r cut.reads ∧ ∃ d, Answered base64Sha1 r fs d := by
  constructor
  · rintro ⟨t, ht, hanswered⟩
    exact ⟨readAlone_of_answered format base64Sha1 cut ht hanswered, _, hanswered⟩
  · rintro ⟨⟨r₀, rs, hreads, hbytes, hroom⟩, d, host, key, hhost, hkey, hfeeds, -⟩
    have hrest : (rs.map Read.bytes).flatten = frameBytes fs := by
      have hflat := cut.flatten_eq
      rw [hreads, List.map_cons, List.flatten_cons, hbytes] at hflat
      exact List.append_cancel_left hflat
    have hmsg : respondHandshake format base64Sha1 key host = some _ :=
      hprints _ _ (printed_ackHandshake _ _)
    have hframes := accepted_frames (base64Sha1 (key ++ s_key)) host key
    have hfirst := echoRead_request format base64Sha1 hspelled hhost hkey hbytes hroom 0
    rw [hmsg, Option.map_some] at hfirst
    rw [← hrest, ← hframes] at hfeeds
    obtain ⟨t, ht, hd⟩ := (echoReads_frames_iff format base64Sha1
      (s := ⟨((MessageBuffer.create size).receive r₀).reset, fresh.accepted host key _⟩) rfl rfl
      rs _).mpr ⟨_, hfeeds, rfl⟩
    rw [hreads]
    refine ⟨t, ⟨_, ⟨0, hfirst⟩, ht⟩, host, key, hhost, hkey, ?_, ?_⟩
    · rw [← hrest, ← hframes, hd]
      exact hfeeds
    · rw [hd, ← hrest]
      rfl

end

end WebSocketConnect

end LuaServer
