import LuaServer.Network.NetConnect

/-!
# NetFraming — what a connection makes of a stream of messages

`sendMsg` puts a head of eight bytes before each body.  The receiving side follows the heads: it
delivers a message when the loop turns with a complete packet, which for a message without a body
takes a byte of what follows, and it turns for ever on a head that announces a negative length.
-/

open Reasoning

namespace LuaServer

namespace NetConnect

/-! ## 1. Packets as they are received -/

/-- The packet that has read `head` and then `body`. -/
def received (head body : List UInt8) : NetPacket := (beginPacket.fill head).append body

section
variable {head body rest : List UInt8}

theorem fill_head_storage (h : head.length = 8) : (beginPacket.fill head).storage = head := by
  rw [BasePacket.fill_storage]
  change overwrite (List.replicate 8 0) 0 head = head
  simp [overwrite, h]

theorem fill_head_wpos (h : head.length = 8) : (beginPacket.fill head).wpos = 8 := by
  rw [BasePacket.fill_wpos, h]
  rfl

theorem fill_head_isHeadFull (h : head.length = 8) :
    NetPacket.isHeadFull (beginPacket.fill head) = true :=
  (NetPacket.isHeadFull_iff _).mpr (fill_head_wpos h).ge

theorem fill_head_getMarkLen (h : head.length = 8) :
    NetPacket.getMarkLen (beginPacket.fill head) = toInt32 (leNat (head.take 4)) := by
  rw [NetPacket.getMarkLen, ByteBuffer.getValue, fill_head_storage h]
  rfl

theorem fill_head_getMsgType (h : head.length = 8) :
    NetPacket.getMsgType (beginPacket.fill head) = toInt32 (leNat (head.drop 4)) := by
  rw [NetPacket.getMsgType, ByteBuffer.getValue, fill_head_storage h,
    List.take_of_length_le (by rw [List.length_drop, h]; decide)]

theorem fill_head_needsize (h : head.length = 8) :
    needsize (beginPacket.fill head) = toInt32 (leNat (head.take 4)) := by
  rw [needsize, fill_head_getMarkLen h, fill_head_wpos h, toInt32_toSizeT]
  simp only [toInt32, MSG_HEAD_SIZE]
  omega

theorem received_wpos (h : head.length = 8) : (received head body).wpos = 8 + body.length := by
  rw [received, BasePacket.append_wpos, fill_head_wpos h]

theorem received_body (h : head.length = 8) : (received head body).body = body := by
  have hw := fill_head_wpos h
  rw [received, BasePacket.append_body _ _ (by rw [hw]), BasePacket.body_eq_nil _ hw,
    List.nil_append]

theorem received_getMsgType (h : head.length = 8) :
    NetPacket.getMsgType (received head body) = toInt32 (leNat (head.drop 4)) := by
  rw [received, NetPacket.getMsgType_append _ _ (fill_head_wpos h).ge, fill_head_getMsgType h]

theorem received_isComplete (h : head.length = 8) (hlen : leNat (head.take 4) = body.length)
    (hlt : body.length < 2 ^ 31) : isComplete (received head body) = true := by
  rw [isComplete, decide_eq_true_eq, received_wpos h, received,
    NetPacket.getMarkLen_append _ _ (fill_head_wpos h).ge, fill_head_getMarkLen h, hlen,
    toInt32_of_lt hlt]
  simp only [toSizeT, MSG_HEAD_SIZE]
  omega

theorem fill_head_not_complete (h : head.length = 8) (hlen : 2 ^ 31 ≤ leNat (head.take 4)) :
    isComplete (beginPacket.fill head) = false := by
  have hlt : leNat (head.take 4) < 2 ^ 32 := by
    have := leNat_lt (head.take 4)
    rwa [List.length_take, h] at this
  rw [isComplete, decide_eq_false_iff_not, fill_head_wpos h, fill_head_getMarkLen h,
    toInt32_of_ge hlen hlt]
  simp only [toSizeT, MSG_HEAD_SIZE]
  omega

/-! ## 2. One message of the stream -/

variable {calls : List OnMsg} {t : NetConnect}

theorem feeds_head_iff (h : head.length = 8) :
    Feeds netReader.turn (none, calls) (head ++ rest) t ↔
      Feeds netReader.turn (some (beginPacket.fill head), calls) rest t := by
  have hne : head ++ rest ≠ [] := by
    intro he
    have := congrArg List.length he
    rw [List.length_append, h] at this
    simp at this
  have hread : netReader.readHead beginPacket (head ++ rest) =
      (beginPacket.fill head, rest) := by
    have hw : beginPacket.wpos = 0 := rfl
    have hmin : min (8 - beginPacket.wpos) (head ++ rest).length = 8 := by
      rw [hw, List.length_append, h]
      omega
    simp only [netReader, PacketOps.reader, packetOps,
      NetPacket.readHead_eq beginPacket (by rw [hw]; decide), hmin]
    rw [← h, List.take_left, List.drop_left]
  rw [feeds_turn_iff hne, PacketReader.turn_head (p := beginPacket) rfl rfl, hread]

theorem feeds_head_unfinished (h : head.length < 8) :
    ∃ t, Feeds netReader.turn (none, calls) head t := by
  by_cases hne : head = []
  · exact ⟨_, by rw [hne]; exact feeds_nil_iff.mpr rfl⟩
  have hread : netReader.readHead beginPacket head = (beginPacket.fill head, []) := by
    have hw : beginPacket.wpos = 0 := rfl
    have hmin : min (8 - beginPacket.wpos) head.length = head.length := by
      rw [hw]
      omega
    simp only [netReader, PacketOps.reader, packetOps,
      NetPacket.readHead_eq beginPacket (by rw [hw]; decide), hmin, List.take_length,
      List.drop_length]
  refine ⟨(some (beginPacket.fill head), calls), ?_⟩
  rw [feeds_turn_iff hne, PacketReader.turn_head (p := beginPacket) rfl rfl, hread]
  exact feeds_nil_iff.mpr rfl

def call (head body : List UInt8) : OnMsg :=
  ⟨toInt32 (leNat (head.drop 4)), received head body⟩

theorem dispatch_received (h : head.length = 8) :
    netReader.dispatch (received head body) = [call head body] := by
  simp only [netReader, PacketOps.reader, packetOps, received_getMsgType h, call]

/-- A message is delivered, provided that the input goes on after an empty body. -/
theorem feeds_message_iff (h : head.length = 8) (hlen : leNat (head.take 4) = body.length)
    (hlt : body.length < 2 ^ 31) (hnext : body ≠ [] ∨ rest ≠ []) :
    Feeds netReader.turn (none, calls) (head ++ (body ++ rest)) t ↔
      Feeds netReader.turn (none, calls ++ [call head body]) rest t := by
  have hneed := fill_head_needsize h
  have hfull := fill_head_isHeadFull h
  have hcomplete := received_isComplete h hlen hlt
  rw [hlen, toInt32_of_lt hlt] at hneed
  rw [feeds_head_iff h, ← dispatch_received h]
  by_cases hbody : body = []
  · subst hbody
    have hrec : received head [] = beginPacket.fill head := BasePacket.append_nil _
    rw [hrec] at hcomplete ⊢
    exact netReader_lawful.feeds_ready_iff hfull (by change needsize _ ≤ 0; rw [hneed]; rfl)
      hcomplete (hnext.resolve_left fun h => h rfl)
  · exact PacketReader.feeds_body_iff hfull hbody hneed hcomplete

theorem feeds_message_unfinished (h : head.length = 8) (hlen : body.length < leNat (head.take 4))
    (hlt : leNat (head.take 4) < 2 ^ 31) :
    Feeds netReader.turn (none, calls) (head ++ body) (some (received head body), calls) := by
  rw [feeds_head_iff h]
  apply netReader_lawful.feeds_unfinished (fill_head_isHeadFull h)
  change _ < needsize _
  rw [fill_head_needsize h, toInt32_of_lt hlt]
  omega

/-- A message without a body at the end of the input waits for more input. -/
theorem feeds_empty_iff (h : head.length = 8) :
    Feeds netReader.turn (none, calls) head t ↔ t = (some (beginPacket.fill head), calls) := by
  rw [← feeds_nil_iff (t := t), ← feeds_head_iff h, List.append_nil]

/-- A head that marks a negative length is not left when there is more input. -/
theorem not_feeds_negative (h : head.length = 8) (hlen : 2 ^ 31 ≤ leNat (head.take 4))
    (hrest : rest ≠ []) : ¬ ∃ t, Feeds netReader.turn (none, calls) (head ++ rest) t := by
  have hlt : leNat (head.take 4) < 2 ^ 32 := by
    have := leNat_lt (head.take 4)
    rwa [List.length_take, h] at this
  rintro ⟨t, ht⟩
  refine netReader_lawful.not_feeds (fill_head_isHeadFull h) ?_ (fill_head_not_complete h hlen)
    hrest ⟨t, (feeds_head_iff h).mp ht⟩
  change needsize _ ≤ 0
  rw [fill_head_needsize h, toInt32_of_ge hlen hlt]
  omega

end

end NetConnect

/-! ## 3. Messages that were sent -/

/-- A call of `sendMsg`: with a packet, which has room for its head, or with bytes. -/
inductive SendMsg
  | pack (msgtype : UInt32) (pack : NetPacket) (head_le : MSG_HEAD_SIZE ≤ pack.wpos)
  | msg (msgtype : UInt32) (msg : List UInt8)

namespace SendMsg

open NetConnect

def msgtype : SendMsg → UInt32
  | pack t _ _ => t
  | msg t _ => t

def body : SendMsg → List UInt8
  | pack _ p _ => p.body
  | msg _ m => m

def queued : SendMsg → NetPacket
  | pack t p _ => (sendMsgPacket t p).1
  | msg t m => sendMsg t m

def head (m : SendMsg) : List UInt8 := leBytes 4 m.body.length ++ leBytes 4 m.msgtype.toNat

theorem head_length (m : SendMsg) : m.head.length = 8 := by
  rw [head, List.length_append, leBytes_length, leBytes_length]

theorem head_len (m : SendMsg) (h : m.body.length < 2 ^ 31) :
    leNat (m.head.take 4) = m.body.length := by
  rw [head, List.take_left' (leBytes_length _ _), leNat_leBytes_of_lt (by omega)]

theorem head_msgtype (m : SendMsg) : leNat (m.head.drop 4) = m.msgtype.toNat := by
  rw [head, List.drop_left' (leBytes_length _ _), leNat_leBytes_of_lt m.msgtype.toNat_lt]

theorem wire_queued (m : SendMsg) (h : m.body.length < 2 ^ 31) :
    wire m.queued = m.head ++ m.body := by
  -- both calls write the head over the first bytes of a packet with this body
  obtain ⟨p, hle, hbody, hqueued⟩ : ∃ p : NetPacket, 8 ≤ p.wpos ∧ p.body = m.body ∧
      m.queued = p.writeHead (toInt32 m.msgtype.toNat) := by
    cases m with
    | pack t p hle => exact ⟨p, hle, rfl, rfl⟩
    | msg t bs =>
      refine ⟨createPacket.append bs, Nat.le_add_right _ _, ?_, rfl⟩
      rw [BasePacket.append_body _ _ (le_refl _), BasePacket.body_eq_nil _ rfl, List.nil_append]
      rfl
  have hsize : toUint32 p.getBodySize = m.body.length := by
    rw [← hbody, BasePacket.body_length, BasePacket.getBodySize, toInt32_toSizeT,
      toUint32_toInt32]
    rw [← hbody, BasePacket.body_length] at h
    simp only [MSG_HEAD_SIZE, toUint32] at h ⊢
    omega
  rw [hqueued, wire, NetPacket.writeHead_wpos, NetPacket.writeHead_take p _ hle,
    hsize, hbody, toUint32_toInt32, toUint32_of_lt m.msgtype.toNat_lt, head]

/-- What a call of `sendMsg` is about. -/
def sent (m : SendMsg) : Nat × List UInt8 := (m.msgtype.toNat, m.body)

end SendMsg

/-- What a call of `onMsg` tells: the type as a 32-bit word and the body. -/
def OnMsg.told (c : OnMsg) : Nat × List UInt8 := (toUint32 c.msgtype, c.packet.body)

namespace NetConnect

/-- The bytes of the messages `ms`, sent one after another. -/
def stream (ms : List SendMsg) : List UInt8 := (ms.map fun m => wire m.queued).flatten

theorem stream_cons {m : SendMsg} {ms : List SendMsg} (h : m.body.length < 2 ^ 31) :
    stream (m :: ms) = m.head ++ (m.body ++ stream ms) := by
  rw [stream, List.map_cons, List.flatten_cons, m.wire_queued h, List.append_assoc]
  rfl

theorem stream_ne_nil {m : SendMsg} {ms : List SendMsg} (h : m.body.length < 2 ^ 31) :
    stream (m :: ms) ≠ [] := by
  intro he
  have := congrArg List.length he
  rw [stream_cons h, List.length_append, m.head_length] at this
  simp at this

theorem told_call (m : SendMsg) : (call m.head m.body).told = m.sent := by
  rw [OnMsg.told, call, m.head_msgtype, received_body m.head_length, toUint32_toInt32,
    toUint32_of_lt m.msgtype.toNat_lt]
  rfl

/-- The connection after the messages `ms`: a last message without a body is still waiting. -/
def after (calls : List OnMsg) : List SendMsg → NetConnect
  | [] => (none, calls)
  | m :: ms =>
    if m.body = [] ∧ ms = [] then (some (beginPacket.fill m.head), calls)
    else after (calls ++ [call m.head m.body]) ms

theorem feeds_stream_iff {ms : List SendMsg} (hms : ∀ m ∈ ms, m.body.length < 2 ^ 31)
    {calls : List OnMsg} {t : NetConnect} :
    Feeds netReader.turn (none, calls) (stream ms) t ↔ t = after calls ms := by
  induction ms generalizing calls with
  | nil => exact feeds_nil_iff
  | cons m ms ih =>
    obtain ⟨hm, hms⟩ := List.forall_mem_cons.mp hms
    rw [stream_cons hm, after]
    -- the only message that waits is one without a body at the end
    by_cases hlast : m.body = [] ∧ ms = []
    · rw [if_pos hlast, hlast.1, hlast.2]
      have hnil : ([] : List UInt8) ++ stream [] = [] := rfl
      rw [hnil, List.append_nil, feeds_empty_iff m.head_length]
    · rw [if_neg hlast, ← ih hms]
      apply feeds_message_iff m.head_length (m.head_len hm) hm
      by_cases hbody : m.body = []
      · apply Or.inr
        cases ms with
        | nil => exact absurd ⟨hbody, rfl⟩ hlast
        | cons m' ms => exact stream_ne_nil (hms m' List.mem_cons_self)
      · exact .inl hbody

/-- All messages have been delivered unless the last one has no body. -/
theorem after_calls (calls : List OnMsg) (ms : List SendMsg) :
    (after calls ms).calls.map OnMsg.told =
      calls.map OnMsg.told ++
        (if ∀ m ∈ ms.getLast?, m.body ≠ [] then ms else ms.dropLast).map SendMsg.sent := by
  induction ms generalizing calls with
  | nil => simp [after]
  | cons m ms ih =>
    rw [after]
    cases ms with
    | nil =>
      by_cases hbody : m.body = []
      · simp [hbody]
      · simp [hbody, after, NetConnect.calls, told_call]
    | cons m' ms =>
      rw [if_neg (by simp), ih, List.getLast?_cons_cons, List.map_append]
      split <;> simp [told_call]

theorem after_calls_iff (ms : List SendMsg) :
    (after [] ms).calls.map OnMsg.told = ms.map SendMsg.sent ↔
      ∀ m ∈ ms.getLast?, m.body ≠ [] := by
  rw [after_calls]
  constructor
  · intro h
    -- a message that is not delivered is missing from the list
    by_contra hlast
    rw [if_neg hlast] at h
    have hne : ms ≠ [] := by
      rintro rfl
      simp at hlast
    have hlen := congrArg List.length h
    have hpos := List.length_pos_iff.mpr hne
    simp only [List.map_nil, List.nil_append, List.length_map, List.length_dropLast] at hlen
    omega
  · intro h
    rw [if_pos h]
    rfl

variable {size : UInt32}

/-- However the stream is cut, the connection ends in the same state. -/
theorem echoReads_stream_iff {ms : List SendMsg} (hms : ∀ m ∈ ms, m.body.length < 2 ^ 31)
    (cut : Cut size (stream ms)) (c : NetConnect) :
    (∃ t, EchoReads onMsgbuffer (TcpSocketBase.fresh size fresh) cut.reads t ∧ t.derived = c) ↔
      c = after [] ms :=
  (echoReads_cut_iff onMsgbuffer_implements netReader_lawful.resumable fresh c cut).trans
    (feeds_stream_iff hms)

/-- All messages have been delivered after the last read exactly when the last of them has a
body. -/
theorem delivered_iff_last_has_body (ms : List SendMsg) (hms : ∀ m ∈ ms, m.body.length < 2 ^ 31)
    (cut : Cut size (stream ms)) :
    (∃ t, EchoReads onMsgbuffer (TcpSocketBase.fresh size fresh) cut.reads t ∧
      t.derived.calls.map OnMsg.told = ms.map SendMsg.sent) ↔
    ∀ m ∈ ms.getLast?, m.body ≠ [] := by
  have hstate := echoReads_stream_iff hms cut
  rw [← after_calls_iff]
  constructor
  · rintro ⟨t, ht, hcalls⟩
    rwa [(hstate t.derived).mp ⟨t, ht, rfl⟩] at hcalls
  · intro hcalls
    obtain ⟨t, ht, hd⟩ := (hstate _).mpr rfl
    exact ⟨t, ht, hd ▸ hcalls⟩

/-- Two messages, the first of them without a body, cut inside the first head and inside the last
body. -/
theorem delivered_iff_last_has_body_two :
    ∃ t, EchoReads onMsgbuffer (TcpSocketBase.fresh MESSAGE_BUFFER_SIZE fresh)
        [⟨[0, 0, 0], by decide, by decide⟩,
          ⟨[0, 1, 0, 0, 0, 2, 0, 0, 0, 7, 0, 0, 0, 104], by decide, by decide⟩,
          ⟨[105], by decide, by decide⟩] t ∧
      t.derived.calls.map OnMsg.told = [(1, []), (7, [104, 105])] :=
  (delivered_iff_last_has_body [.msg 1 [], .msg 7 [104, 105]] (by decide) ⟨_, by decide⟩).mpr
    (by simp [SendMsg.body])

/-- One message without a body is not delivered by the read that brings it. -/
theorem empty_body_not_delivered :
    ¬ ∃ t, EchoReads onMsgbuffer (TcpSocketBase.fresh MESSAGE_BUFFER_SIZE fresh)
        (⟨[⟨[0, 0, 0, 0, 7, 0, 0, 0], by decide, by decide⟩], by decide⟩ :
          Cut MESSAGE_BUFFER_SIZE (stream [.msg 7 []])).reads t ∧
      t.derived.calls.map OnMsg.told = [SendMsg.msg 7 []].map SendMsg.sent := by
  rintro ⟨t, ht, hcalls⟩
  rw [(echoReads_stream_iff (by decide) _ t.derived).mp ⟨t, ht, rfl⟩] at hcalls
  exact absurd hcalls (by decide)

end NetConnect

end LuaServer
