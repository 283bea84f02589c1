import LuaServer.Network.HttpConnect
import LuaServer.Network.TcpHandle
import LuaServer.Reasoning.Decimal

/-!
# HttpSession — a connection with its handler and its handle

The reader of `HttpConnect` together with what the handler sends, the writes that complete, and the
calls of `uv_close`.  `on_writecomplete` asks the parser whether to close: the version and the flags
that it finds there are those of the head that was parsed last, or nothing after `zero()`.
-/

open Reasoning

namespace LuaServer

/-! ## 1. What the handler sends -/

inductive HttpContentType
  | hct_text_html
  | hct_text_plain
  | hct_text_xml
  | hct_text_json
  | hct_image_gif
  | hct_image_jpeg
  | hct_image_png
deriving DecidableEq

def getContentTypeStr : HttpContentType → List UInt8
  | .hct_text_html => ascii "text/html"
  | .hct_text_plain => ascii "text/plain"
  | .hct_text_xml => ascii "text/xml"
  | .hct_text_json => ascii "text/json"
  | .hct_image_gif => ascii "image/gif"
  | .hct_image_jpeg => ascii "image/jpeg"
  | .hct_image_png => ascii "image/png"

/-- A call of the handler on its connection. -/
inductive HttpReply
  | sendMsg (msg : List UInt8)
  | autoMsg (sv : List UInt8) (type : HttpContentType)
deriving DecidableEq

/-- The packet that the call gives to `TcpSocket::write`. -/
def HttpReply.packet : HttpReply → BasePacket 0
  | .sendMsg msg => (BasePacket.construct 0 []).append msg
  | .autoMsg sv type =>
    let buff := ascii "HTTP/1.1 200 OK\r\nContent-Type: " ++ getContentTypeStr type ++
      ascii "\r\nContent-Length: " ++ intNumeral (toInt32 sv.length) ++ ascii "\r\n\r\n"
    ((BasePacket.construct 0 []).append buff).append sv

/-! ## 2. Keeping a connection -/

/-- What a head says about the connection: the version, `F_CONNECTION_KEEP_ALIVE` and
`F_CONNECTION_CLOSE` as its fields set them, and whether the message ends with it. -/
structure HttpHead where
  http_major : UInt8
  http_minor : UInt8
  keepAlive : Bool
  close : Bool
  complete : Bool
deriving DecidableEq

/-- What `llhttp_should_keep_alive` reads of a parser for requests. -/
structure LlhttpState where
  http_major : UInt8
  http_minor : UInt8
  keepAlive : Bool
  close : Bool
deriving DecidableEq

namespace LlhttpState

/-- `llhttp_init`. -/
def init : LlhttpState := ⟨0, 0, false, false⟩

/-- A request never needs the end of the stream. -/
def shouldKeepAlive (p : LlhttpState) : Bool :=
  if 0 < p.http_major ∧ 0 < p.http_minor then !p.close else p.keepAlive

end LlhttpState

namespace HttpHead

/-- No head. -/
def none : HttpHead := ⟨0, 0, false, false, false⟩

/-- What `llhttp_execute` leaves: the end of a message clears the flags. -/
def left (h : HttpHead) : LlhttpState :=
  ⟨h.http_major, h.http_minor, h.keepAlive && !h.complete, h.close && !h.complete⟩

end HttpHead

/-! ## 3. The connection -/

/-- Where a call of `uv_close` comes from. -/
inductive HttpClose
  -- `echo_read`
  | readError
  -- `on_msgbuffer`: the head is too big or not parsed
  | badHead
  -- `on_writecomplete`, with the socket as it is when the request has completed
  | writeComplete (socket : TcpSocket)
deriving DecidableEq

/-- A call of the handler: the method and the head of the request, and the addresses of the packets
that the call writes. -/
structure HttpAnswer where
  method : UInt8
  head : HttpHead
  packets : List Nat
deriving DecidableEq

/-- A call of `on_writecomplete`: the heads of the GET and POST requests whose only packet has been
sent, and whether it closes. -/
structure HttpCompletion where
  heads : List HttpHead
  closes : Bool
deriving DecidableEq

structure HttpSession where
  conn : HttpConnect
  buffer : HttpConnect.Buffer
  -- the rest of `m_parser`, and the head that it has parsed since `zero()`
  llhttpState : LlhttpState
  head : HttpHead
  handle : TcpHandle
  closes : List HttpClose
  answers : List HttpAnswer
  completions : List HttpCompletion

inductive HttpSessionAction
  -- a read, what the handler sends at its calls, and a bound on the turns of the loop
  | read (r : Read MESSAGE_BUFFER_SIZE) (replies : Nat → List HttpReply) (fuel : Nat)
  -- a read error or the end of the stream
  | readError
  -- a handler replies later; `HttpServer` shows the connection to nobody but the handlers
  | reply (reply : HttpReply)
  -- the request that is outstanding is done, or cancelled
  | writeComplete
  -- libuv calls `on_uv_close`
  | uvClosed

namespace HttpSession

/-- A new connection; the buffer may come from a pool. -/
def fresh (capacity : Nat) (buffer : HttpConnect.Buffer) : HttpSession :=
  ⟨HttpConnect.create capacity, buffer.reset, .init, .none, TcpHandle.fresh, [], [], []⟩

def isClose (s : HttpSession) : Bool := !s.llhttpState.shouldKeepAlive

def close (s : HttpSession) (origin : HttpClose) : HttpSession :=
  { s with handle := s.handle.close, closes := s.closes ++ [origin] }

def send (h : TcpHandle) (replies : List HttpReply) : TcpHandle :=
  replies.foldl (fun h reply => h.write reply.packet.sendData) h

/-- `m_parser.parser` has read the head. -/
def parsed (s : HttpSession) (head : HttpHead) : HttpSession :=
  { s with llhttpState := head.left, head := head }

/-- `complete()` has called the handler, then `zero()`. -/
def answered (s : HttpSession) (method : UInt8) (replies : List HttpReply) : HttpSession :=
  { s with
    llhttpState := .init
    head := .none
    handle := send s.handle replies
    answers := s.answers ++ [⟨method, s.head,
      List.range' s.handle.socket.written.length replies.length⟩] }

/-- The heads of the GET and POST requests answered by one packet that is being sent. -/
def sentHeads (s : HttpSession) : List HttpHead :=
  (s.answers.filter fun a => decide ((a.method = HTTP_GET ∨ a.method = HTTP_POST) ∧
    ∃ b ∈ s.handle.socket.mSending, a.packets = [b.base.address])).map HttpAnswer.head

/-- `HttpConnect::on_writecomplete`. -/
def onWritecomplete (s : HttpSession) : HttpSession :=
  let s : HttpSession := { s with completions := s.completions ++ [⟨s.sentHeads, s.isClose⟩] }
  let s := if s.isClose then s.close (.writeComplete s.handle.socket) else s
  { s with handle := s.handle.onWritecomplete }

section
variable (llhttp : Llhttp) (growth : Nat → Nat → Nat) (headOf : List UInt8 → HttpHead)

/-- find head end pos -/
def findHead (s : HttpSession) : HttpSession :=
  if s.conn.m_content = none then
    let r := HttpConnect.findHead llhttp growth (s.conn, s.buffer)
    let s : HttpSession := { s with conn := r.1, buffer := r.2 }
    let s :=
      if r.1.m_content = none then s
      else s.parsed (headOf (r.1.m_readPacket.storage.take r.1.m_readPacket.wpos))
    if r.1.status = .closed then s.close .badHead else s
  else s

/-- A turn of the loop of `on_msgbuffer`; the handler is called when `m_content` is NULL again. -/
def turn (replies : Nat → List HttpReply) (s : HttpSession) : HttpSession :=
  let s := s.findHead llhttp growth headOf
  if s.conn.status = .running ∧ s.conn.m_content ≠ none then
    let r := HttpConnect.readBody growth (s.conn, s.buffer)
    let t : HttpSession := { s with conn := r.1, buffer := r.2 }
    if r.1.m_content = none then t.answered s.conn.mParser.method (replies s.answers.length) else t
  else s

def onMsgbuffer (replies : Nat → List HttpReply) (fuel : Nat) (s : HttpSession) :
    Option HttpSession :=
  whileFuel (fun s => HttpConnect.loopCond (s.conn, s.buffer)) (turn llhttp growth headOf replies)
    fuel s

def step (s : HttpSession) (a : HttpSessionAction) : Option HttpSession :=
  if s.handle.isAborted ∨ s.handle.closed ∨ s.conn.status = .undefined then none
  else match a with
    | .read r replies fuel =>
      if s.handle.isClosing then none
      else (onMsgbuffer llhttp growth headOf replies fuel
        { s with buffer := s.buffer.receive r }).map fun t => { t with buffer := t.buffer.reset }
    | .readError => if s.handle.isClosing then none else some (s.close .readError)
    | .reply reply =>
      if s.answers = [] then none
      else some { s with handle := s.handle.write reply.packet.sendData }
    | .writeComplete =>
      if s.handle.socket.outstanding = [] then none
      else some (onWritecomplete { s with handle := s.handle.completed })
    | .uvClosed =>
      if s.handle.isCloseDue then some { s with handle := { s.handle with closed := true } }
      else none

/-! ## 4. The reader inside -/

/-- The loop does with the reader what it does without handler and handle. -/
theorem turn_reader (replies : Nat → List HttpReply) (s : HttpSession) :
    ((s.turn llhttp growth headOf replies).conn, (s.turn llhttp growth headOf replies).buffer) =
      HttpConnect.onMsgbufferBody llhttp growth (s.conn, s.buffer) := by
  have hfind : ((s.findHead llhttp growth headOf).conn, (s.findHead llhttp growth headOf).buffer) =
      if s.conn.m_content = none then HttpConnect.findHead llhttp growth (s.conn, s.buffer)
      else (s.conn, s.buffer) := by
    rw [findHead]
    split
    · simp only [close, parsed]
      split <;> split <;> rfl
    · rfl
  rw [HttpConnect.onMsgbufferBody]
  simp only [← hfind, turn]
  split
  · simp only [answered]
    split <;> rfl
  · rfl

/-! ## 5. One turn -/

/-- The parser is as the last head has left it, cleared when no request is being read; the calls of
`uv_close` are those of the report, and while there is none the connection is open and its queue in
order. -/
structure Inv (s : HttpSession) : Prop where
  parser : s.llhttpState = s.head.left
  cleared : s.conn.m_content = none → s.head = .none
  closes : s.closes.length = s.handle.closes
  status : s.handle.closes = 0 → s.conn.status ≠ .closed
  socket : s.handle.closes = 0 → s.handle.socket.Inv

/-- What the loop leaves of an open connection: it is still open, or its head was no good. -/
structure Kept (s t : HttpSession) : Prop where
  inv : t.Inv
  completions : t.completions = s.completions
  closes : t.handle.closes = 0 ∨ t.conn.status = .closed ∧ t.closes = [.badHead]

theorem Inv.closes_eq_nil {s : HttpSession} (hs : s.Inv) (hopen : s.handle.closes = 0) :
    s.closes = [] := List.length_eq_zero_iff.mp (hs.closes.trans hopen)

theorem Kept.open_of_running {s t : HttpSession} (h : s.Kept t) (hrun : t.conn.status = .running) :
    t.handle.closes = 0 := by
  rcases h.closes with hopen | ⟨hclosed, -⟩
  · exact hopen
  · rw [hrun] at hclosed
    cases hclosed

/-- The first call of `uv_close`. -/
theorem close_first {s : HttpSession} (hparser : s.llhttpState = s.head.left)
    (hcleared : s.conn.m_content = none → s.head = .none) (hopen : s.handle.closes = 0)
    (hnil : s.closes = []) (origin : HttpClose) :
    (s.close origin).Inv ∧ (s.close origin).handle.closes = 1 ∧
      (s.close origin).closes = [origin] := by
  have hone : (s.close origin).handle.closes = 1 := congrArg (· + 1) hopen
  have hreport : (s.close origin).closes = [origin] := by
    rw [close, hnil]
    rfl
  refine ⟨⟨hparser, hcleared, ?_, ?_, ?_⟩, hone, hreport⟩
  · rw [hreport, hone]
    rfl
  · intro hzero
    cases hzero
  · intro hzero
    cases hzero

theorem send_open {h : TcpHandle} (hopen : h.closes = 0) (hs : h.socket.Inv)
    (replies : List HttpReply) : (send h replies).closes = 0 ∧ (send h replies).socket.Inv := by
  induction replies generalizing h with
  | nil => exact ⟨hopen, hs⟩
  | cons reply replies ih =>
    rw [send, List.foldl_cons]
    apply ih
    · exact (h.write_closes _).trans hopen
    · exact TcpHandle.write_inv hopen hs reply.packet.sendData

theorem finish_not_closed {c : HttpConnect} (h : c.status ≠ .closed) :
    c.finish.status ≠ .closed := by
  unfold HttpConnect.finish
  split
  · exact h
  · exact h

theorem readBody_not_closed {c : HttpConnect} {b : HttpConnect.Buffer} (h : c.status ≠ .closed) :
    (HttpConnect.readBody growth (c, b)).1.status ≠ .closed := by
  simp only [HttpConnect.readBody]
  split
  · split
    · show HttpStatus.undefined ≠ .closed
      decide
    · exact finish_not_closed h
  · exact finish_not_closed h

theorem findHead_kept {s : HttpSession} (hs : s.Inv) (hopen : s.handle.closes = 0) :
    s.Kept (s.findHead llhttp growth headOf) := by
  have hnil := hs.closes_eq_nil hopen
  unfold findHead
  split
  · rename_i hcontent
    obtain ⟨⟨c, b⟩, hr⟩ : ∃ r, HttpConnect.findHead llhttp growth (s.conn, s.buffer) = r := ⟨_, rfl⟩
    simp only [hr]
    obtain ⟨t, ht⟩ : ∃ t : HttpSession, (if c.m_content = none then
        { s with conn := c, buffer := b } else
        ({ s with conn := c, buffer := b } : HttpSession).parsed
          (headOf (c.m_readPacket.storage.take c.m_readPacket.wpos))) = t := ⟨_, rfl⟩
    rw [ht]
    -- the head that has been found is the one in the parser
    have hparser : t.llhttpState = t.head.left ∧ (t.conn.m_content = none → t.head = .none) := by
      rw [← ht]
      split
      · exact ⟨hs.parser, fun _ => hs.cleared hcontent⟩
      · rename_i hfound
        exact ⟨rfl, fun hnone => absurd hnone hfound⟩
    have hrest : t.conn = c ∧ t.handle = s.handle ∧ t.closes = s.closes ∧
        t.completions = s.completions := by
      rw [← ht]
      split <;> exact ⟨rfl, rfl, rfl, rfl⟩
    obtain ⟨hconn, hhandle, hcloses, hcompletions⟩ := hrest
    have hopen' : t.handle.closes = 0 := hhandle ▸ hopen
    split
    · rename_i hclosed
      obtain ⟨hinv, -, hreport⟩ :=
        close_first hparser.1 hparser.2 hopen' (hcloses.trans hnil) .badHead
      exact ⟨hinv, hcompletions, .inr ⟨hconn ▸ hclosed, hreport⟩⟩
    · rename_i hclosed
      refine ⟨⟨hparser.1, hparser.2, ?_, fun _ => hconn ▸ hclosed, fun _ => ?_⟩, hcompletions,
        .inl hopen'⟩
      · rw [hhandle, hcloses, hs.closes]
      · rw [hhandle]
        exact hs.socket hopen
  · exact ⟨hs, rfl, .inl hopen⟩

theorem turn_kept {s : HttpSession} (hs : s.Inv) (hopen : s.handle.closes = 0)
    (replies : Nat → List HttpReply) : s.Kept (s.turn llhttp growth headOf replies) := by
  have hfind := findHead_kept llhttp growth headOf hs hopen
  unfold turn
  obtain ⟨t, ht⟩ : ∃ t, s.findHead llhttp growth headOf = t := ⟨_, rfl⟩
  rw [ht] at hfind ⊢
  simp only
  split
  · rename_i hrun
    have hopen' := hfind.open_of_running hrun.1
    have hrunning : t.conn.status ≠ .closed := by
      rw [hrun.1]
      decide
    have hstatus := readBody_not_closed growth (b := t.buffer) hrunning
    obtain ⟨⟨c, b⟩, hr⟩ : ∃ r, HttpConnect.readBody growth (t.conn, t.buffer) = r := ⟨_, rfl⟩
    rw [hr] at hstatus
    simp only [hr]
    have hsocket := hfind.inv.socket hopen'
    split
    · obtain ⟨hcloses, hinv⟩ := send_open hopen' hsocket (replies t.answers.length)
      refine ⟨⟨rfl, fun _ => rfl, ?_, fun _ => hstatus, fun _ => hinv⟩, hfind.completions,
        .inl hcloses⟩
      exact hfind.inv.closes.trans (hopen'.trans hcloses.symm)
    · rename_i hcontent
      exact ⟨⟨hfind.inv.parser, fun hnone => absurd hnone hcontent, hfind.inv.closes,
        fun _ => hstatus, fun _ => hsocket⟩, hfind.completions, .inl hopen'⟩
  · exact hfind

/-- The loop of `on_msgbuffer`. -/
theorem onMsgbuffer_kept {s t : HttpSession} {replies : Nat → List HttpReply} {fuel : Nat}
    (hs : s.Inv) (hopen : s.handle.closes = 0)
    (h : onMsgbuffer llhttp growth headOf replies fuel s = some t) : s.Kept t := by
  have hret : Returns (fun s : HttpSession => HttpConnect.loopCond (s.conn, s.buffer))
    (turn llhttp growth headOf replies) s t := ⟨fuel, h⟩
  apply hret.invariant (I := fun u => s.Kept u)
  · intro u hu hcond
    have hopen' := hu.open_of_running (of_decide_eq_true hcond).2
    have hturn := turn_kept llhttp growth headOf hu.inv hopen' replies
    exact ⟨hturn.inv, hturn.completions.trans hu.completions, hturn.closes⟩
  · exact ⟨hs, rfl, .inl hopen⟩

/-! ## 6. One step -/

/-- What every step but a completion does: nothing to the report of the completions, and at most the
first call of `uv_close`, which is then not made by `on_writecomplete`. -/
structure Rests (s t : HttpSession) : Prop where
  inv : t.Inv
  completions : t.completions = s.completions
  closes : t.handle.closes = s.handle.closes ∧ t.closes = s.closes ∨
    s.handle.closes = 0 ∧ t.handle.closes = 1 ∧ (t.closes = [.badHead] ∨ t.closes = [.readError])

theorem fresh_inv (capacity : Nat) (buffer : HttpConnect.Buffer) : (fresh capacity buffer).Inv where
  parser := rfl
  cleared _ := rfl
  closes := rfl
  status _ := by
    show HttpStatus.running ≠ .closed
    decide
  socket _ := TcpSocket.fresh_inv

theorem read_rests {s t : HttpSession} {r : Read MESSAGE_BUFFER_SIZE}
    {replies : Nat → List HttpReply} {fuel : Nat} (hs : s.Inv) (hopen : s.handle.closes = 0)
    (h : onMsgbuffer llhttp growth headOf replies fuel { s with buffer := s.buffer.receive r } =
      some t) : s.Rests { t with buffer := t.buffer.reset } := by
  have hs' : ({ s with buffer := s.buffer.receive r } : HttpSession).Inv :=
    ⟨hs.parser, hs.cleared, hs.closes, hs.status, hs.socket⟩
  have hkept := onMsgbuffer_kept llhttp growth headOf hs' hopen h
  have hinv := hkept.inv
  refine ⟨⟨hinv.parser, hinv.cleared, hinv.closes, hinv.status, hinv.socket⟩, hkept.completions, ?_⟩
  rcases hkept.closes with hzero | ⟨-, hbad⟩
  · exact .inl ⟨hzero.trans hopen.symm,
      (hinv.closes_eq_nil hzero).trans (hs.closes_eq_nil hopen).symm⟩
  · have hone := hinv.closes
    rw [hbad] at hone
    exact .inr ⟨hopen, hone.symm, .inl hbad⟩

theorem readError_rests {s : HttpSession} (hs : s.Inv) (hopen : s.handle.closes = 0) :
    s.Rests (s.close .readError) := by
  obtain ⟨hinv, hone, hreport⟩ :=
    close_first hs.parser hs.cleared hopen (hs.closes_eq_nil hopen) .readError
  exact ⟨hinv, rfl, .inr ⟨hopen, hone, .inr hreport⟩⟩

theorem reply_rests {s : HttpSession} (hs : s.Inv) (data : SendData) :
    s.Rests { s with handle := s.handle.write data } := by
  have hcloses := s.handle.write_closes data
  refine ⟨⟨hs.parser, hs.cleared, hs.closes.trans hcloses.symm, ?_, ?_⟩, rfl, .inl ⟨hcloses, rfl⟩⟩
  · intro hzero
    exact hs.status (hcloses.symm.trans hzero)
  · intro hzero
    have hopen := hcloses.symm.trans hzero
    exact TcpHandle.write_inv hopen (hs.socket hopen) data

theorem step_cases {s t : HttpSession} {a : HttpSessionAction} (hs : s.Inv)
    (h : s.step llhttp growth headOf a = some t) :
    s.handle.closes ≤ 1 ∧
      (a = .writeComplete ∧ s.handle.socket.outstanding ≠ [] ∧
          t = onWritecomplete { s with handle := s.handle.completed } ∨
        a ≠ .writeComplete ∧ s.Rests t) := by
  unfold step at h
  split at h
  · cases h
  rename_i hgo
  simp only [not_or] at hgo
  have hle : s.handle.closes ≤ 1 := by
    have hno := hgo.1
    rw [TcpHandle.isAborted, decide_eq_true_eq] at hno
    omega
  refine ⟨hle, ?_⟩
  cases a with
  | read r replies fuel =>
    simp only at h
    split at h
    · cases h
    rename_i hclosing
    have hopen := TcpHandle.isClosing_eq_false_iff.mp (Bool.not_eq_true _ ▸ hclosing)
    obtain ⟨u, hloop, rfl⟩ := Option.map_eq_some_iff.mp h
    exact .inr ⟨by simp, read_rests llhttp growth headOf hs hopen hloop⟩
  | readError =>
    simp only at h
    split at h
    · cases h
    rename_i hclosing
    have hopen := TcpHandle.isClosing_eq_false_iff.mp (Bool.not_eq_true _ ▸ hclosing)
    cases h
    exact .inr ⟨by simp, readError_rests hs hopen⟩
  | reply reply =>
    simp only at h
    split at h
    · cases h
    · cases h
      exact .inr ⟨by simp, reply_rests hs _⟩
  | writeComplete =>
    simp only at h
    split at h
    · cases h
    · rename_i hout
      cases h
      exact .inl ⟨rfl, hout, rfl⟩
  | uvClosed =>
    simp only at h
    split at h
    · cases h
      exact .inr ⟨by simp, ⟨hs.parser, hs.cleared, hs.closes, hs.status, hs.socket⟩, rfl,
        .inl ⟨rfl, rfl⟩⟩
    · cases h

end

end HttpSession

end LuaServer
