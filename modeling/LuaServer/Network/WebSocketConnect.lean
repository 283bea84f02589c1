import LuaServer.Common.Tools
import LuaServer.Network.PacketLoop
import LuaServer.Network.WebSocketSend

/-!
# WebSocketConnect — handshake and frames

A connection parses one request, answers it, and from the next read on fills frames from the read
buffer.  The request is parsed as a C string from the read pointer on; whatever the read holds
behind it is discarded with the buffer.
-/

open Reasoning

namespace LuaServer

/-- What a connection does to the outside, in the order in which it does it. -/
inductive WebSocketReaction
  -- calls of the event handler
  | onHandshake
  | onClose
  | onMsg (packet : WebSocketPacket)
  -- `this->close()`
  | close
  -- `TcpSocket::write`
  | write (data : SendData)
deriving DecidableEq

/-- `__m_readPacket`, if there is one, and the reactions so far. -/
abbrev WebSocketFrames : Type := Option WebSocketPacket × List WebSocketReaction

namespace WebSocketPacket

def beginPacket : WebSocketPacket :=
  { construct with toBasePacket := construct.toBasePacket.setWpos 0 (Nat.zero_le _) }

/-- `getMarkLen() + WS_MAX_HEAD_SIZE`, a sum of two `int`s. -/
def frameEnd (p : WebSocketPacket) : Int := toInt32 (p.getMarkLen + WS_MAX_HEAD_SIZE)

def needsize (p : WebSocketPacket) : Int := toInt32 (toSizeT (p.frameEnd - p.wpos))

def isComplete (p : WebSocketPacket) : Bool := decide (p.wpos = toSizeT p.frameEnd)

/-- The loop of `decodingDatas`: `c[i] = c[i] ^ ((uint8*)(&msg_mask))[i % 4]` for `i < n`. -/
def decodeLoop (mask : List UInt8) (rpos : Nat) : Nat → List UInt8 → List UInt8
  | 0, c => c
  | n + 1, c => (decodeLoop mask rpos n c).modify (rpos + n) (· ^^^ mask.getD (n % 4) 0)

theorem decodeLoop_length (mask : List UInt8) (rpos n : Nat) (c : List UInt8) :
    (decodeLoop mask rpos n c).length = c.length := by
  induction n with
  | zero => rfl
  | succ n ih => rw [decodeLoop, List.length_modify, ih]

def decodingDatas (p : WebSocketPacket) (msg_mask : Nat) : WebSocketPacket :=
  { p with
    storage := decodeLoop (leBytes 4 msg_mask) p.rpos p.getMarkLen.toNat p.storage
    wpos_le := by rw [decodeLoop_length]; exact p.wpos_le
    head_le := by rw [decodeLoop_length]; exact p.head_le }

/-- What follows a complete frame. -/
def dispatch (p : WebSocketPacket) : List WebSocketReaction :=
  let p := if p.getMask ≠ 0 then p.decodingDatas p.getMaskKey else p
  if p.getOpcode.toNat = CLOSE_FRAME then [.close]
  else if p.getOpcode.toNat = PING_FRAME then [.write p.setPongPacket.sendMsgPacket.1.sendData]
  else [.onMsg p]

/-- What the loop of `on_msgbuffer` does with a packet. -/
def packetOps : PacketOps WebSocketPacket WebSocketReaction where
  begin := beginPacket
  isHeadFull := isHeadFull
  readHead := readFrameHead
  needsize := needsize
  append := append
  isComplete := isComplete
  dispatch := dispatch

/-! ## 1. The frames as packets of a reader -/

variable {size : UInt32}

def frameBody : WebSocketFrames × MessageBuffer size → WebSocketFrames × MessageBuffer size :=
  packetOps.body

def frameReader : PacketReader WebSocketPacket WebSocketReaction UInt8 := packetOps.reader

theorem needsize_lt (p : WebSocketPacket) : p.needsize < 2 ^ 31 := by
  have h := toInt32_bounds (toSizeT (p.frameEnd - p.wpos))
  exact h.2

theorem append_nil (p : WebSocketPacket) : p.append [] = p := by
  simp only [append, BasePacket.append_nil]

theorem append_append (p : WebSocketPacket) (x y : List UInt8) :
    (p.append x).append y = p.append (x ++ y) := by
  simp only [append, BasePacket.append_append]

theorem append_getPayloadLen (p : WebSocketPacket) (src : List UInt8) :
    (p.append src).getPayloadLen = p.getPayloadLen := rfl

theorem append_getMarkLen (p : WebSocketPacket) (src : List UInt8) (h : 14 ≤ p.wpos) :
    (p.append src).getMarkLen = p.getMarkLen := by
  have hword : ∀ width ≤ 8, (p.append src).getValue WS_HEAD_SIZE width =
      p.getValue WS_HEAD_SIZE width := by
    intro width hwidth
    apply p.toBasePacket.append_getValue
    simp only [WS_HEAD_SIZE]
    omega
  rw [getMarkLen, append_getPayloadLen, hword 2 (by decide), hword 8 (by decide), getMarkLen]

theorem append_needsize (p : WebSocketPacket) (src : List UInt8) (h : 14 ≤ p.wpos)
    (hle : (src.length : Int) ≤ p.needsize) :
    (p.append src).needsize = p.needsize - src.length := by
  have hend : (p.append src).frameEnd = p.frameEnd := by
    rw [frameEnd, append_getMarkLen p src h, frameEnd]
  have hw : (p.append src).wpos = p.wpos + src.length := rfl
  rw [needsize, hend, hw]
  unfold needsize toInt32 toSizeT at *
  omega

theorem isComplete_eq_false (p : WebSocketPacket) (h : 0 < p.needsize) : p.isComplete = false := by
  rw [isComplete, decide_eq_false_iff_not]
  intro he
  unfold needsize toInt32 toSizeT at *
  omega

theorem readHead_eq {p : WebSocketPacket} (hh : p.isHeadFull = false) {bs : List UInt8}
    (hbs : bs ≠ []) : frameReader.readHead p bs = p.headBytes bs :=
  (readFrameHead_eq ((isHeadFull_eq_false_iff p).mp hh) hbs).1

theorem frameReader_lawful : frameReader.Lawful where
  head_frame p a b hh ha hleft := by
    rw [readHead_eq hh ha] at hleft ⊢
    rw [readHead_eq hh (by simp [ha]), headBytes_append, if_neg hleft]
  head_resume p a b hh ha hb hleft := by
    rw [readHead_eq hh ha] at hleft ⊢
    rw [readHead_eq hh (by simp [ha]), headBytes_append, if_pos hleft]
    cases hfull : (p.headBytes a).1.isHeadFull with
    | true => exact .inl (headBytes_full ((isHeadFull_iff _).mp hfull) b)
    | false => exact .inr ⟨hfull, (readHead_eq hfull hb).symm⟩
  append_nil := append_nil
  append_append := append_append
  headFull_append p a h := by
    have hw := (isHeadFull_iff p).mp h
    apply (isHeadFull_iff _).mpr
    show 14 ≤ p.wpos + a.length
    omega
  needsize_append p a h hle := append_needsize p a ((isHeadFull_iff p).mp h) hle
  complete_eq_false p _ hn := isComplete_eq_false p hn

theorem frameBody_implements : Implements (@frameBody size) frameReader.turn := by
  refine packetOps.implements ?_ ?_ needsize_lt append_nil
  · intro p src n _
    simp only [packetOps]
    exact readFrameHead_take p src n
  · intro p src hh hne
    simp only [packetOps]
    exact (readFrameHead_eq ((isHeadFull_eq_false_iff p).mp hh) hne).2

end WebSocketPacket

/-! ## 2. The handshake -/

/-- The name and the value of a header line that ends in CR: the name is what stands before the
first colon and blank, or the whole line; the value goes from `pos + 2` up to the CR. -/
def headerField (line : List UInt8) : List UInt8 × List UInt8 :=
  match find (ascii ": ") line with
  | some pos => (line.take pos, (line.drop (pos + 2)).take (line.length - 1 - (pos + 2)))
  -- `npos + 2` is 1 in `size_t`
  | none => (line, (line.drop 1).take (line.length - 1 - 1))

/-- The lines behind the first one.  The last assignment of a name counts.  An empty line is indexed
at `size() - 1`, which is undefined. -/
def headerLoop : Nat → List UInt8 → List (List UInt8 × List UInt8) →
    Option (List (List UInt8 × List UInt8))
  | 0, _, mapKey => some mapKey
  | fuel + 1, stream, mapKey =>
    match getline stream with
    | none => some mapKey
    | some ([], _) => none
    | some (line, rest) =>
      if line = [13] ∨ line.getLast? ≠ some 13 then headerLoop fuel rest mapKey
      else headerLoop fuel rest (headerField line :: mapKey)

/-- Host and key of the request, none if it is refused; no result at all where the code reads
outside its strings. -/
def parseHandshake (pData : List UInt8) (len : Nat) :
    Option (Option (List UInt8 × List UInt8)) :=
  if len < 2 then some none
  else do
    let stream ← cString pData
    match getline stream with
    | none => return none
    | some (line, rest) =>
      if ¬ ascii "GET" <+: line then return none
      -- every line takes at least one byte of the stream
      let mapKey ← headerLoop rest.length rest []
      return do
        let host ← mapKey.lookup (ascii "Host")
        let key ← mapKey.lookup (ascii "Sec-WebSocket-Key")
        return (host, key)

structure WebSocketConnect where
  m_strKey : List UInt8
  m_strHost : List UInt8
  m_handshakeMsg : List UInt8
  m_isHandshake : Bool
  frames : WebSocketFrames
  -- the bytes that the frame loop has used up
  framed : List UInt8
deriving DecidableEq

namespace WebSocketConnect

def fresh : WebSocketConnect := ⟨[], [], [], false, (none, []), []⟩

/-- The answer: `%s` stands for the digest of the key and for the host. -/
def ackHandshake : List UInt8 :=
  ascii "HTTP/1.1 101 Switching Protocols\r\n" ++ ascii "Upgrade: websocket\r\n" ++
    ascii "Connection: Upgrade\r\n" ++ ascii "Sec-WebSocket-Accept: %s\r\n" ++
    ascii "WebSocket-Location: ws://%s/\r\n" ++
    ascii "WebSocket-Protocol: WebManagerSocket\r\n\r\n"

/-- The fixed text behind the key. -/
def s_key : List UInt8 := ascii "258EAFA5-E914-47DA-95CA-C5AB0DC85B11"

section
-- `Tools::format`, which in the source has no result for the answer, and `base64_encode` of the
-- `SHA1` digest of a C string
variable (format : Tools.Format) (base64Sha1 : List UInt8 → List UInt8) {size : UInt32}

def respondHandshake (strKey strHost : List UInt8) : Option (List UInt8) :=
  format ackHandshake [base64Sha1 (strKey ++ s_key), strHost]

/-- The request is refused. -/
def refused (c : WebSocketConnect) : WebSocketConnect :=
  { c with frames := (c.frames.1, c.frames.2 ++ [.onClose]) }

/-- The answer with its NUL goes into a packet without it. -/
def accepted (c : WebSocketConnect) (host key msg : List UInt8) : WebSocketConnect :=
  let pack := (BasePacket.construct 0 []).append (msg.take (msg.length - 1))
  { c with
    m_strKey := key
    m_strHost := host
    m_handshakeMsg := msg
    m_isHandshake := true
    frames := (c.frames.1, c.frames.2 ++ [.write pack.sendData, .onHandshake]) }

/-- The first phase of `on_msgbuffer`. -/
def shakeHands (c : WebSocketConnect) (pData : List UInt8) (len : Nat) : Option WebSocketConnect :=
  (parseHandshake pData len).bind fun parsed =>
    match parsed with
    | none => some c.refused
    | some (host, key) => (respondHandshake format base64Sha1 key host).map (c.accepted host key)

variable {format base64Sha1} in
theorem shakeHands_cases {c d : WebSocketConnect} {pData : List UInt8} {len : Nat}
    (h : c.shakeHands format base64Sha1 pData len = some d) :
    parseHandshake pData len = some none ∧ d = c.refused ∨
      ∃ host key msg, parseHandshake pData len = some (some (host, key)) ∧
        respondHandshake format base64Sha1 key host = some msg ∧ d = c.accepted host key msg := by
  obtain ⟨parsed, hparse, hd⟩ := Option.bind_eq_some_iff.mp h
  cases parsed with
  | none => exact .inl ⟨hparse, (Option.some.inj hd).symm⟩
  | some hk =>
    obtain ⟨msg, hmsg, rfl⟩ := Option.map_eq_some_iff.mp hd
    exact .inr ⟨hk.1, hk.2, msg, hparse, hmsg, rfl⟩

def onMsgbuffer : OnMsgbuffer size WebSocketConnect := fun fuel s =>
  if s.1.m_isHandshake = false then
    (s.1.shakeHands format base64Sha1 s.2.getReadPointer s.2.getActiveSize).map fun c => (c, s.2)
  else
    (whileActive WebSocketPacket.frameBody fuel (s.1.frames, s.2)).map fun r =>
      ({ s.1 with
        frames := r.1
        framed := s.1.framed ++ s.2.active.take (s.2.active.length - r.2.active.length) }, r.2)

/-! ## 3. After the handshake -/

def betweenFrames (c : WebSocketConnect) : WebSocketConnect :=
  { c with m_isHandshake := true, frames := (none, c.frames.2) }

def fed (c : WebSocketConnect) (frames : WebSocketFrames) (bytes : List UInt8) : WebSocketConnect :=
  { c with frames := frames, framed := c.framed ++ bytes }

theorem echoRead_frames_iff {s t : TcpSocketBase size WebSocketConnect}
    (hh : s.derived.m_isHandshake = true) (hs : s.AtRest) (r : Read size) :
    (∃ fuel, echoRead (onMsgbuffer format base64Sha1) fuel s r = some t) ↔
      ∃ f, Feeds WebSocketPacket.frameReader.turn s.derived.frames r.bytes f ∧
        t = ⟨(s.mBuffer.receive r).reset, s.derived.fed f r.bytes⟩ := by
  have hbounds : (s.mBuffer.receive r).InBounds := hs ▸ s.mBuffer.receive_inBounds r
  have hactive : (s.mBuffer.receive r).active = r.bytes := hs ▸ s.mBuffer.receive_active r
  have himp := @WebSocketPacket.frameBody_implements size
  -- a loop that ends has used up the read
  have hexit : ∀ f b', Returns (fun p => decide (0 < p.2.getActiveSize)) WebSocketPacket.frameBody
      (s.derived.frames, s.mBuffer.receive r) (f, b') →
      b'.active = [] ∧ b'.reset = (s.mBuffer.receive r).reset := by
    intro f b' hret
    have hinv := hret.invariant (himp.keeps _) ⟨hbounds, rfl⟩
    have hzero : b'.getActiveSize = 0 := by simpa using hret.cond_eq
    exact ⟨List.length_eq_zero_iff.mp (hinv.1.active_length.trans hzero), hinv.2⟩
  rw [← hactive]
  simp only [himp.feeds_iff hbounds]
  have hloop : ∀ fuel, echoRead (onMsgbuffer format base64Sha1) fuel s r =
      (whileActive WebSocketPacket.frameBody fuel (s.derived.frames, s.mBuffer.receive r)).map
        fun p => ⟨p.2.reset, s.derived.fed p.1 ((s.mBuffer.receive r).active.take
          ((s.mBuffer.receive r).active.length - p.2.active.length))⟩ := by
    intro fuel
    have hphase : ¬ s.derived.m_isHandshake = false := by rw [hh]; decide
    rw [echoRead, onMsgbuffer, if_neg hphase, Option.map_map]
    rfl
  constructor
  · rintro ⟨fuel, hf⟩
    rw [hloop] at hf
    obtain ⟨⟨f, b'⟩, hret, rfl⟩ := Option.map_eq_some_iff.mp hf
    obtain ⟨hnil, hreset⟩ := hexit f b' ⟨fuel, hret⟩
    refine ⟨f, ⟨b', fuel, hret⟩, ?_⟩
    simp only [hnil, hreset, List.length_nil, Nat.sub_zero, List.take_length]
  · rintro ⟨f, ⟨b', fuel, hret⟩, rfl⟩
    obtain ⟨hnil, hreset⟩ := hexit f b' ⟨fuel, hret⟩
    refine ⟨fuel, ?_⟩
    rw [hloop]
    refine Option.map_eq_some_iff.mpr ⟨(f, b'), hret, ?_⟩
    simp only [hnil, hreset, List.length_nil, Nat.sub_zero, List.take_length]

theorem echoReads_frames_iff {s : TcpSocketBase size WebSocketConnect}
    (hh : s.derived.m_isHandshake = true) (hs : s.AtRest) (rs : List (Read size))
    (d : WebSocketConnect) :
    (∃ t, EchoReads (onMsgbuffer format base64Sha1) s rs t ∧ t.derived = d) ↔
      ∃ f, Feeds WebSocketPacket.frameReader.turn s.derived.frames (rs.map Read.bytes).flatten f ∧
        d = s.derived.fed f (rs.map Read.bytes).flatten := by
  induction rs generalizing s with
  | nil =>
    have hfed : s.derived.fed s.derived.frames [] = s.derived := by
      simp only [fed, List.append_nil]
    simp only [EchoReads, List.map_nil, List.flatten_nil, feeds_nil_iff]
    constructor
    · rintro ⟨t, rfl, rfl⟩
      exact ⟨_, rfl, hfed.symm⟩
    · rintro ⟨f, rfl, rfl⟩
      exact ⟨s, rfl, hfed.symm⟩
  | cons r rs ih =>
    simp only [EchoReads, List.map_cons, List.flatten_cons,
      feeds_append_iff WebSocketPacket.frameReader_lawful.resumable]
    -- what two reads add is what their bytes add together
    have hfed : ∀ f g x y, (s.derived.fed f x).fed g y = s.derived.fed g (x ++ y) := by
      intro f g x y
      simp only [fed, List.append_assoc]
    constructor
    · rintro ⟨t, ⟨m, hm, ht⟩, hd⟩
      obtain ⟨f, hf, rfl⟩ := (echoRead_frames_iff format base64Sha1 hh hs r).mp hm
      obtain ⟨g, hg, rfl⟩ := (ih (s := ⟨(s.mBuffer.receive r).reset, s.derived.fed f r.bytes⟩)
        hh rfl).mp ⟨t, ht, hd⟩
      exact ⟨g, ⟨f, hf, hg⟩, hfed f g _ _⟩
    · rintro ⟨g, ⟨f, hf, hg⟩, rfl⟩
      obtain ⟨t, ht, hd⟩ := (ih (s := ⟨(s.mBuffer.receive r).reset, s.derived.fed f r.bytes⟩)
        hh rfl).mpr ⟨g, hg, (hfed f g _ _).symm⟩
      exact ⟨t, ⟨_, (echoRead_frames_iff format base64Sha1 hh hs r).mpr ⟨f, hf, rfl⟩, ht⟩, hd⟩

end

end WebSocketConnect

end LuaServer
