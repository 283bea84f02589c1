import LuaServer.Network.HttpIsolation
import LuaServer.Network.HttpSession
import LuaServer.Reasoning.Transition

/-!
# HttpClose — when a completed write closes the connection

`on_writecomplete` closes whenever the parser, as it is at that moment, does not say keep-alive.  It
looks neither at the handle, nor at the packets that wait, nor at the request that was answered.
-/

open Reasoning

namespace LuaServer

/-- What the request asks for, against what the completion of its answer does. -/
structure HttpHead.Honoured (head : HttpHead) (closes : Bool) : Prop where
  http11 : head.http_major = 1 ∧ head.http_minor = 1 → (closes = true ↔ head.close = true)
  http10 : head.http_major = 1 ∧ head.http_minor = 0 → closes = false → head.keepAlive = true

namespace HttpSession

/-- A request of HTTP/1.1 that says nothing of its connection. -/
def getText : List UInt8 := ascii "GET / HTTP/1.1\r\n\r\n"

def getRequest : Read MESSAGE_BUFFER_SIZE := ⟨getText, by decide, by decide⟩

def getHead : HttpHead := ⟨1, 1, false, false, true⟩

def getStep : HttpSession → HttpSessionAction → Option HttpSession :=
  step HttpSocket.oneRequestParser (fun _ n => n) fun _ => getHead

def getFresh : HttpSession := fresh 0 (MessageBuffer.create MESSAGE_BUFFER_SIZE)

/-! ## 1. A completion -/

theorem onWritecomplete_reader (s : HttpSession) :
    s.onWritecomplete.conn = s.conn ∧ s.onWritecomplete.llhttpState = s.llhttpState ∧
      s.onWritecomplete.head = s.head := by
  simp only [onWritecomplete, close]
  split <;> exact ⟨rfl, rfl, rfl⟩

theorem onWritecomplete_completions (s : HttpSession) :
    s.onWritecomplete.completions = s.completions ++ [⟨s.sentHeads, s.isClose⟩] := by
  simp only [onWritecomplete, close]
  split <;> rfl

theorem onWritecomplete_closes (s : HttpSession) :
    s.onWritecomplete.closes =
      s.closes ++ if s.isClose then [.writeComplete s.handle.socket] else [] := by
  have hclose : ({ s with completions := s.completions ++ [⟨s.sentHeads, s.isClose⟩] } :
    HttpSession).isClose = s.isClose := rfl
  simp only [onWritecomplete, close, hclose]
  split
  · rfl
  · exact (List.append_nil _).symm

theorem onWritecomplete_handle (s : HttpSession) :
    s.onWritecomplete.handle =
      (if s.isClose then s.handle.close else s.handle).onWritecomplete := by
  have hclose : ({ s with completions := s.completions ++ [⟨s.sentHeads, s.isClose⟩] } :
    HttpSession).isClose = s.isClose := rfl
  simp only [onWritecomplete, close, hclose]
  split <;> rfl

theorem onWritecomplete_handle_closes (s : HttpSession) :
    s.onWritecomplete.handle.closes = s.handle.closes + if s.isClose then 1 else 0 := by
  rw [onWritecomplete_handle, TcpHandle.onWritecomplete_closes]
  split <;> rfl

theorem completed_onWritecomplete_inv {s : HttpSession} (hs : s.Inv)
    (hout : s.handle.socket.outstanding ≠ []) :
    (onWritecomplete { s with handle := s.handle.completed }).Inv := by
  obtain ⟨u, hu⟩ : ∃ u : HttpSession, { s with handle := s.handle.completed } = u := ⟨_, rfl⟩
  have hclose : u.isClose = s.isClose := hu ▸ rfl
  have hhandle : u.handle = s.handle.completed := hu ▸ rfl
  obtain ⟨hconn, hstate, hhead⟩ := u.onWritecomplete_reader
  have hcloses := u.onWritecomplete_handle_closes
  -- a completion that leaves the handle open has not closed it
  have hopen : u.onWritecomplete.handle.closes = 0 → s.handle.closes = 0 ∧ u.isClose = false := by
    intro hzero
    rw [hcloses, hhandle] at hzero
    change s.handle.closes + _ = 0 at hzero
    cases hc : u.isClose with
    | true =>
      rw [hc] at hzero
      cases hzero
    | false => exact ⟨(Nat.add_eq_zero_iff.mp hzero).1, rfl⟩
  rw [hu]
  refine ⟨?_, ?_, ?_, ?_, ?_⟩
  · rw [hstate, hhead, ← hu]
    exact hs.parser
  · rw [hconn, hhead, ← hu]
    exact hs.cleared
  · have hlen : u.closes.length = u.handle.closes := by
      rw [hhandle, ← hu]
      exact hs.closes
    rw [hcloses, onWritecomplete_closes, List.length_append, hlen]
    split <;> rfl
  · intro hzero
    rw [hconn, ← hu]
    exact hs.status (hopen hzero).1
  · intro hzero
    obtain ⟨hzero', hc⟩ := hopen hzero
    rw [onWritecomplete_handle, hc, hhandle]
    exact TcpHandle.completed_onWritecomplete_inv hzero' (hs.socket hzero') hout

/-- After `zero()` the parser says close; while a body is being read its head decides. -/
theorem isClose_eq_false_iff {s : HttpSession} (hs : s.Inv) :
    s.isClose = false ↔ s.conn.m_content ≠ none ∧ s.head.left.shouldKeepAlive = true := by
  rw [isClose, Bool.not_eq_false', hs.parser]
  constructor
  · intro hkeep
    refine ⟨fun hnone => ?_, hkeep⟩
    rw [hs.cleared hnone] at hkeep
    cases hkeep
  · exact And.right

theorem isClose_iff {s : HttpSession} (hs : s.Inv) :
    s.isClose = true ↔ s.conn.m_content = none ∨ s.head.left.shouldKeepAlive = false := by
  rw [← Bool.not_eq_false, isClose_eq_false_iff hs, not_and_or, not_not, Bool.not_eq_true]

section
variable (llhttp : Llhttp) (growth : Nat → Nat → Nat) (headOf : List UInt8 → HttpHead)
  (capacity : Nat) (buffer : HttpConnect.Buffer)

theorem step_inv {s t : HttpSession} {a : HttpSessionAction} (hs : s.Inv)
    (h : s.step llhttp growth headOf a = some t) : t.Inv := by
  obtain ⟨-, ⟨-, hout, rfl⟩ | ⟨-, hrests⟩⟩ := step_cases llhttp growth headOf hs h
  · exact completed_onWritecomplete_inv hs hout
  · exact hrests.inv

/-! ## 2. One call of `uv_close` -/

def ClosedOnce (s : HttpSession) : Prop := s.handle.closes ≤ 1

/-- A request that is done on a closing handle finds the head of a body that is still being read,
and this head keeps the connection. -/
def ClosesNoMore (s : HttpSession) (a : HttpSessionAction) : Prop :=
  a = .writeComplete → 0 < s.handle.closes →
    s.conn.m_content ≠ none ∧ s.head.left.shouldKeepAlive = true

theorem step_closedOnce_iff {s t : HttpSession} {a : HttpSessionAction} (hs : s.Inv)
    (h : s.step llhttp growth headOf a = some t) : t.ClosedOnce ↔ s.ClosesNoMore a := by
  obtain ⟨hle, ⟨rfl, -, rfl⟩ | ⟨hne, hrests⟩⟩ := step_cases llhttp growth headOf hs h
  · rw [ClosedOnce, onWritecomplete_handle_closes, ClosesNoMore, ← isClose_eq_false_iff hs]
    have hclose : ({ s with handle := s.handle.completed } : HttpSession).isClose = s.isClose := rfl
    change s.handle.closes + _ ≤ 1 ↔ _
    rw [hclose]
    cases hc : s.isClose with
    | true =>
      rw [if_pos rfl]
      constructor
      · intro hone _ hpos
        exact absurd hpos (by omega)
      · intro hkeep
        by_contra hmany
        cases hkeep rfl (by omega)
    | false =>
      rw [if_neg Bool.false_ne_true]
      exact iff_of_true hle fun _ _ => rfl
  · refine iff_of_true ?_ fun heq => absurd heq hne
    rcases hrests.closes with ⟨heq, -⟩ | ⟨-, hone, -⟩
    · rw [ClosedOnce, heq]
      exact hle
    · exact hone.le

/-- In a run `uv_close` is called at most once exactly when every request that is done on a closing
handle finds a head that keeps the connection. -/
theorem closed_once_iff (actions : List HttpSessionAction) :
    Always ClosedOnce (step llhttp growth headOf) (fresh capacity buffer) actions ↔
      Meets ClosesNoMore (step llhttp growth headOf) (fresh capacity buffer) actions := by
  apply always_iff_meets (I := Inv)
  · intro s a t hs h
    exact step_inv llhttp growth headOf hs h
  · intro s a t hs _ h
    exact step_closedOnce_iff llhttp growth headOf hs h
  · exact fresh_inv capacity buffer
  · exact Nat.zero_le 1

/-- The handler answers, and the stream ends before the answer is sent: the cancelled write finds
the cleared parser and closes a second time. -/
theorem cancelled_write_closes_twice :
    ∃ s, run getStep getFresh
        [.read getRequest (fun _ => [.sendMsg (ascii "x")]) 1, .readError, .writeComplete] =
          some s ∧
      s.handle.closes = 2 ∧
      ¬ Always ClosedOnce getStep getFresh
        [.read getRequest (fun _ => [.sendMsg (ascii "x")]) 1, .readError, .writeComplete] := by
  have hrun : ∃ s, run getStep getFresh
      [.read getRequest (fun _ => [.sendMsg (ascii "x")]) 1, .readError, .writeComplete] = some s ∧
      s.handle.closes = 2 := ⟨_, rfl, by decide +kernel⟩
  obtain ⟨s, hs, hcloses⟩ := hrun
  refine ⟨s, hs, hcloses, fun h => ?_⟩
  have honce := h.reached hs
  rw [ClosedOnce, hcloses] at honce
  exact absurd honce (by decide)

/-! ## 3. What the close leaves behind -/

/-- When `on_writecomplete` has closed an open connection, every packet that a handler had queued
was handed over, and its request done. -/
def SentAll (s : HttpSession) : Prop :=
  ∀ socket, s.closes.head? = some (.writeComplete socket) →
    socket.outstanding = [] ∧ socket.handed = socket.written.map HeapPacket.buf

/-- A request that is done on an open connection, when the parser says close, has sent the last
packets of the queue. -/
def ClosesLast (s : HttpSession) (a : HttpSessionAction) : Prop :=
  a = .writeComplete → s.handle.closes = 0 →
    s.conn.m_content = none ∨ s.head.left.shouldKeepAlive = false →
      s.handle.socket.mSendPackets.drop s.handle.socket.mSending.length = []

/-- The request that is outstanding is all that is left to hand over. -/
theorem handed_eq_written_iff {socket : TcpSocket} (hs : socket.Inv)
    (hout : socket.outstanding ≠ []) :
    socket.handed = socket.written.map HeapPacket.buf ↔
      socket.mSendPackets.drop socket.mSending.length = [] := by
  obtain ⟨done, hwritten, -, hhanded⟩ := hs.history
  have hsending : socket.outstanding.flatten = socket.mSending := by
    rw [(hs.outstanding.resolve_left hout).2, List.flatten_singleton]
  have hsplit : socket.mSendPackets.map HeapPacket.buf = socket.mSending ++
      (socket.mSendPackets.drop socket.mSending.length).map HeapPacket.buf := by
    conv_lhs => rw [← List.take_append_drop socket.mSending.length socket.mSendPackets]
    rw [List.map_append, ← hs.sending]
  rw [hhanded, hwritten, hsending, List.map_append, hsplit, List.append_cancel_left_eq,
    List.self_eq_append_right, List.map_eq_nil_iff]

theorem completed_outstanding {h : TcpHandle} (hs : h.socket.Inv) :
    h.completed.socket.outstanding = [] := by
  change h.socket.outstanding.tail = []
  rcases hs.outstanding with hout | ⟨-, hout⟩
  · rw [hout, List.tail_nil]
  · rw [hout, List.tail_cons]

theorem sentAll_of_closes {s t : HttpSession} (hs : s.SentAll) (h : t.closes = s.closes) :
    t.SentAll := by
  rw [SentAll, h]
  exact hs

theorem sentAll_of_nil {s : HttpSession} (h : s.closes = []) : s.SentAll := by
  intro socket hfirst
  rw [h] at hfirst
  cases hfirst

/-- A completion on an open connection. -/
theorem completion_sentAll_iff {s : HttpSession} (hs : s.Inv) (hopen : s.handle.closes = 0)
    (hout : s.handle.socket.outstanding ≠ []) :
    (onWritecomplete { s with handle := s.handle.completed }).SentAll ↔
      (s.isClose = true →
        s.handle.socket.mSendPackets.drop s.handle.socket.mSending.length = []) := by
  have hsocket := hs.socket hopen
  have hsent := handed_eq_written_iff hsocket hout
  obtain ⟨u, hu⟩ : ∃ u : HttpSession, { s with handle := s.handle.completed } = u := ⟨_, rfl⟩
  have hcloses : u.onWritecomplete.closes =
      if s.isClose then [.writeComplete s.handle.completed.socket] else [] := by
    rw [onWritecomplete_closes, ← hu]
    change s.closes ++ _ = _
    rw [hs.closes_eq_nil hopen, List.nil_append]
    rfl
  rw [hu]
  cases hc : s.isClose with
  | true =>
    rw [hc, if_pos rfl] at hcloses
    constructor
    · intro hall _
      have hfirst := (hall s.handle.completed.socket (by rw [hcloses]; rfl)).2
      exact hsent.mp hfirst
    · intro hlast socket hfirst
      rw [hcloses] at hfirst
      cases hfirst
      exact ⟨completed_outstanding hsocket, hsent.mpr (hlast rfl)⟩
  | false =>
    rw [hc, if_neg Bool.false_ne_true] at hcloses
    exact iff_of_true (sentAll_of_nil hcloses) fun hfalse => absurd hfalse Bool.false_ne_true

theorem step_sentAll_iff {s t : HttpSession} {a : HttpSessionAction} (hs : s.Inv)
    (hgood : s.SentAll) (h : s.step llhttp growth headOf a = some t) :
    t.SentAll ↔ s.ClosesLast a := by
  obtain ⟨-, ⟨rfl, hout, rfl⟩ | ⟨hne, hrests⟩⟩ := step_cases llhttp growth headOf hs h
  · rcases Nat.eq_zero_or_pos s.handle.closes with hopen | hclosing
    · rw [completion_sentAll_iff hs hopen hout, ClosesLast, ← isClose_iff hs]
      exact ⟨fun hlast _ _ => hlast, fun hlast => hlast rfl hopen⟩
    · -- the first call of `uv_close` is not this one
      refine iff_of_true ?_ fun _ hopen => absurd hopen hclosing.ne'
      intro socket hfirst
      apply hgood socket
      have hne : s.closes ≠ [] := List.length_pos_iff.mp (hs.closes ▸ hclosing)
      rw [onWritecomplete_closes] at hfirst
      exact (List.head?_append_of_ne_nil _ hne).symm.trans hfirst
  · refine iff_of_true ?_ fun heq => absurd heq hne
    rcases hrests.closes with ⟨-, heq⟩ | ⟨-, -, heq | heq⟩
    · exact sentAll_of_closes hgood heq
    · intro socket hfirst
      rw [heq] at hfirst
      cases hfirst
    · intro socket hfirst
      rw [heq] at hfirst
      cases hfirst

/-- In a run `on_writecomplete` cuts no packet off exactly when every request after which it closes
the connection has sent the last packets of the queue. -/
theorem close_sends_all_iff (actions : List HttpSessionAction) :
    Always SentAll (step llhttp growth headOf) (fresh capacity buffer) actions ↔
      Meets ClosesLast (step llhttp growth headOf) (fresh capacity buffer) actions := by
  apply always_iff_meets (I := Inv)
  · intro s a t hs h
    exact step_inv llhttp growth headOf hs h
  · intro s a t hs hgood h
    exact step_sentAll_iff llhttp growth headOf hs hgood h
  · exact fresh_inv capacity buffer
  · exact sentAll_of_nil rfl

/-- A handler that sends two packets: the first is sent, and the connection closed. -/
theorem second_packet_cut :
    ∃ s, run getStep getFresh
        [.read getRequest (fun _ => [.sendMsg (ascii "x"), .sendMsg (ascii "y")]) 1,
          .writeComplete] = some s ∧
      s.handle.socket.handed.map UvBuf.bytes = [ascii "x"] ∧
      ¬ Always SentAll getStep getFresh
        [.read getRequest (fun _ => [.sendMsg (ascii "x"), .sendMsg (ascii "y")]) 1,
          .writeComplete] := by
  have hrun : ∃ s, run getStep getFresh
      [.read getRequest (fun _ => [.sendMsg (ascii "x"), .sendMsg (ascii "y")]) 1,
        .writeComplete] = some s ∧
      s.handle.socket.handed.map UvBuf.bytes = [ascii "x"] ∧
      ∃ socket, s.closes.head? = some (.writeComplete socket) ∧
        socket.handed ≠ socket.written.map HeapPacket.buf := by
    refine ⟨_, rfl, by decide +kernel, _, rfl, by decide +kernel⟩
  obtain ⟨s, hs, hhanded, socket, hfirst, hcut⟩ := hrun
  refine ⟨s, hs, hhanded, fun h => ?_⟩
  exact hcut (h.reached hs socket hfirst).2

/-! ## 4. What the request asks for -/

/-- Every GET and POST request that one packet has answered is closed or kept as it asks. -/
def AllHonoured (s : HttpSession) : Prop :=
  ∀ c ∈ s.completions, ∀ head ∈ c.heads, head.Honoured c.closes

/-- The parser says of the connection what the head of the answered request does: after `zero()`
that it closes, while a body is being read what the head before the body says. -/
def ParserAgrees (s : HttpSession) (head : HttpHead) : Prop :=
  if s.conn.m_content = none then
    head.http_major = 1 ∧ head.http_minor = 1 → head.close = true
  else
    (head.http_major = 1 ∧ head.http_minor = 1 →
        (s.head.left.shouldKeepAlive = false ↔ head.close = true)) ∧
      (head.http_major = 1 ∧ head.http_minor = 0 →
        s.head.left.shouldKeepAlive = true → head.keepAlive = true)

def Agrees (s : HttpSession) (a : HttpSessionAction) : Prop :=
  a = .writeComplete → ∀ head ∈ s.sentHeads, s.ParserAgrees head

theorem honoured_isClose_iff {s : HttpSession} (hs : s.Inv) (head : HttpHead) :
    head.Honoured s.isClose ↔ s.ParserAgrees head := by
  by_cases hnone : s.conn.m_content = none
  · have hclose : s.isClose = true := (isClose_iff hs).mpr (.inl hnone)
    rw [ParserAgrees, if_pos hnone, hclose]
    constructor
    · intro h hversion
      exact (h.http11 hversion).mp rfl
    · intro h
      refine ⟨fun hversion => iff_of_true rfl (h hversion), fun _ hfalse => ?_⟩
      cases hfalse
  · have hclose := isClose_iff hs
    have hkeep := isClose_eq_false_iff hs
    simp only [hnone, false_or, ne_eq, not_false_eq_true, true_and] at hclose hkeep
    rw [ParserAgrees, if_neg hnone, ← hclose, ← hkeep]
    exact ⟨fun h => ⟨h.http11, h.http10⟩, fun h => ⟨h.1, h.2⟩⟩

theorem step_allHonoured_iff {s t : HttpSession} {a : HttpSessionAction} (hs : s.Inv)
    (hgood : s.AllHonoured) (h : s.step llhttp growth headOf a = some t) :
    t.AllHonoured ↔ s.Agrees a := by
  obtain ⟨-, ⟨rfl, -, rfl⟩ | ⟨hne, hrests⟩⟩ := step_cases llhttp growth headOf hs h
  · obtain ⟨u, hu⟩ : ∃ u : HttpSession, { s with handle := s.handle.completed } = u := ⟨_, rfl⟩
    -- libuv has done nothing to the reader, nor to the packets that are being sent
    have hreport : u.completions = s.completions ∧ u.sentHeads = s.sentHeads ∧
        u.isClose = s.isClose := by
      rw [← hu]
      exact ⟨rfl, rfl, rfl⟩
    rw [hu, AllHonoured, onWritecomplete_completions, hreport.1, hreport.2.1, hreport.2.2]
    constructor
    · intro hall _ head hhead
      have hnew := hall ⟨s.sentHeads, s.isClose⟩ (by simp) head hhead
      exact (honoured_isClose_iff hs head).mp hnew
    · intro hagrees c hc head hhead
      rcases List.mem_append.mp hc with hc | hc
      · exact hgood c hc head hhead
      · obtain rfl := List.mem_singleton.mp hc
        exact (honoured_isClose_iff hs head).mpr (hagrees rfl head hhead)
  · refine iff_of_true ?_ fun hcomplete => absurd hcomplete hne
    rw [AllHonoured, hrests.completions]
    exact hgood

/-- In a run every request that one packet has answered is closed or kept as it asks exactly when
the parser agrees, at each completion, with the heads of the requests that are answered. -/
theorem keepAlive_honoured_iff (actions : List HttpSessionAction) :
    Always AllHonoured (step llhttp growth headOf) (fresh capacity buffer) actions ↔
      Meets Agrees (step llhttp growth headOf) (fresh capacity buffer) actions := by
  apply always_iff_meets (I := Inv)
  · intro s a t hs h
    exact step_inv llhttp growth headOf hs h
  · intro s a t hs hgood h
    exact step_allHonoured_iff llhttp growth headOf hs hgood h
  · exact fresh_inv capacity buffer
  · intro c hc
    cases hc

/-- HTTP/1.1 keeps a connection of which the request says nothing; the answer closes it. -/
theorem kept_request_closed :
    ∃ s, run getStep getFresh
        [.read getRequest (fun _ => [.sendMsg (ascii "x")]) 1, .writeComplete] = some s ∧
      s.completions = [⟨[getHead], true⟩] ∧
      ¬ Always AllHonoured getStep getFresh
        [.read getRequest (fun _ => [.sendMsg (ascii "x")]) 1, .writeComplete] := by
  have hrun : ∃ s, run getStep getFresh
      [.read getRequest (fun _ => [.sendMsg (ascii "x")]) 1, .writeComplete] = some s ∧
      s.completions = [⟨[getHead], true⟩] := ⟨_, rfl, by decide +kernel⟩
  obtain ⟨s, hs, hcompletions⟩ := hrun
  refine ⟨s, hs, hcompletions, fun h => ?_⟩
  have hhonoured := h.reached hs ⟨[getHead], true⟩ (by rw [hcompletions]; simp) getHead (by simp)
  have hasked := (hhonoured.http11 ⟨rfl, rfl⟩).mp rfl
  cases hasked

end

end HttpSession

end LuaServer
