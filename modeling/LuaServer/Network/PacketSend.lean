import LuaServer.Common.PacketValues
import LuaServer.Network.NetGetters
import LuaServer.Network.WebSocketHandshake

/-!
# PacketSend — sending a packet and sending its bytes

`sendMsg` has two forms.  The one with a packet takes the storage of the packet over and writes a
head into it; the one with bytes appends them to a new packet.  For the packets that a script can
have both put the same bytes on the wire, and the packet that was sent is empty afterwards.
-/

open Reasoning

namespace LuaServer

namespace BasePacket

variable {headSize : Nat} {p : BasePacket headSize}

/-- Nothing lies behind the write cursor. -/
def Full (p : BasePacket headSize) : Prop := p.wpos = p.storage.length

theorem construct_full (headSize : Nat) (pooled : List UInt8) : (construct headSize pooled).Full :=
  (resize_length _ _).symm

theorem zero_full (p : BasePacket headSize) : p.zero.Full := (resize_length _ _).symm

theorem Full.push (h : p.Full) (v : PacketValue) : (p.push v).Full := by
  rw [push_eq_append, Full, append_wpos, h]
  exact (p.toByteBuffer.append_storage_length _).symm

theorem Full.pushAll (h : p.Full) (values : List PacketValue) : (p.pushAll values).Full := by
  induction values generalizing p with
  | nil => exact h
  | cons v values ih => exact ih (h.push v)

theorem Full.after (h : p.Full) (g : Getter) : (g.after p).Full := by
  rw [Full, Getter.after_wpos, Getter.after_storage]
  exact h

theorem Full.body_eq (h : p.Full) : p.body = p.storage.drop headSize := by
  rw [body, h, List.take_length]

/-- What is pushed onto a packet that has been zeroed is its body. -/
theorem zero_pushAll_body (p : BasePacket headSize) (values : List PacketValue) :
    (p.zero.pushAll values).body = values.flatMap PacketValue.bytes := by
  rw [pushAll_eq_append, append_body _ _ (le_refl headSize), body_eq_nil _ rfl, List.nil_append]

end BasePacket

/-! ## 1. Net packets -/

/-- The packets that a script can have: a new one, one that `onMsg` gets at some turn of the loop,
one that has been sent; with values pushed onto it and values got from it that are there. -/
inductive NetPacket.Obtained : NetPacket → Prop
  | fresh : Obtained NetConnect.createPacket
  | received {size : UInt32} {rs : List (Read size)} {s : TcpSocketBase size NetConnect}
      (hs : EchoReads NetConnect.onMsgbuffer (TcpSocketBase.fresh size NetConnect.fresh) rs s)
      (r : Read size) {q : NetConnect × MessageBuffer size}
      (hq : Turns (fun q => decide (0 < q.2.getActiveSize)) NetConnect.onMsgbufferBody
        (s.derived, s.mBuffer.receive r) q) {m : OnMsg} (hm : m ∈ q.1.calls) : Obtained m.packet
  | push {p : NetPacket} (h : Obtained p) (v : PacketValue) : Obtained (BasePacket.push p v)
  | get {p : NetPacket} (h : Obtained p) (g : Getter) (hfits : g.Fits ⟨p, []⟩) :
      Obtained (g.after p)
  | sent (msgtype : UInt32) {p : NetPacket} (h : Obtained p) :
      Obtained (NetConnect.sendMsgPacket msgtype p).2

namespace NetPacket

theorem Obtained.full {p : NetPacket} (h : p.Obtained) : BasePacket.Full p := by
  induction h with
  | fresh => exact BasePacket.construct_full _ _
  | received hs r hq hm => exact ((NetConnect.sound_of_turns hs r hq).handed _ hm).wpos_eq
  | push _ v ih => exact ih.push v
  | get _ g _ ih => exact ih.after g
  | sent msgtype _ _ => exact BasePacket.zero_full _

/-- What is queued shows the head and the body alone. -/
theorem writeHead_sendData_eq {p q : NetPacket} (hw : p.wpos = q.wpos)
    (hbody : p.storage.drop 8 = q.storage.drop 8) (msgtype : Int) :
    (p.writeHead msgtype).sendData = (q.writeHead msgtype).sendData := by
  have hstorage : (p.writeHead msgtype).storage = (q.writeHead msgtype).storage := by
    rw [writeHead_storage, writeHead_storage, hbody, BasePacket.getBodySize, hw,
      BasePacket.getBodySize]
  simp only [sendData, BasePacket.sendData, hstorage, writeHead_wpos, hw]

theorem sendData_agree {p : NetPacket} (h : BasePacket.Full p) (msgtype : UInt32) :
    (NetConnect.sendMsgPacket msgtype p).1.sendData =
      (NetConnect.sendMsg msgtype p.body).sendData := by
  have hlen := p.body_length
  have hle : 8 ≤ p.wpos := h ▸ p.head_le
  apply writeHead_sendData_eq (p := p) (q := NetConnect.createPacket.append p.body)
  · rw [BasePacket.append_wpos, hlen]
    show p.wpos = 8 + (p.wpos - 8)
    omega
  · have happend : (NetConnect.createPacket.append p.body).storage =
        NetConnect.createPacket.storage ++ p.body :=
      BasePacket.append_storage_of_full (BasePacket.construct_full _ _) _
    rw [happend, h.body_eq]
    rfl

end NetPacket

/-! ## 2. Frames -/

namespace WebSocketPacket

/-- A frame that is being read: the storage is the head, and grows with the body. -/
def Building (p : WebSocketPacket) : Prop := p.storage.length = max 14 p.wpos

theorem placeRest_building {p : WebSocketPacket} (h : p.Building) (hw : p.wpos ≤ 14) :
    p.placeRest.Building ∧ p.placeRest.wpos ≤ 14 := by
  have hlen : p.placeRest.storage.length = p.storage.length := by
    rw [placeRest]
    split <;> rfl
  by_cases h2 : p.wpos = 2
  · have hle := (placeRest_wpos h2).2
    refine ⟨?_, hle⟩
    rw [Building] at h ⊢
    omega
  · rw [placeRest_of_ne h2]
    exact ⟨h, hw⟩

theorem headByte_building {p : WebSocketPacket} (h : p.Building) (hw : p.wpos < 14) (b : UInt8) :
    (p.headByte b).Building ∧ (p.headByte b).wpos ≤ 14 := by
  rw [Building] at h
  rw [headByte]
  split
  · have hpos : (p.copyFixed [b]).wpos = p.wpos + 1 :=
      copyFixed_wpos (show p.wpos + 1 ≤ 14 by omega)
    have hstorage : (p.copyFixed [b]).storage = p.storage :=
      p.toBasePacket.advance_storage [b].length
    apply placeRest_building
    · rw [Building, hstorage, hpos]
      omega
    · omega
  · have hlen : (p.fill [b]).storage.length = p.storage.length :=
      overwrite_length (show p.wpos + 1 ≤ p.storage.length by omega)
    have hpos : (p.fill [b]).wpos = p.wpos + 1 := rfl
    refine ⟨?_, by omega⟩
    rw [Building, hlen, hpos]
    omega

theorem headBytes_building {p : WebSocketPacket} (h : p.Building) (hw : p.wpos ≤ 14)
    (bs : List UInt8) : (p.headBytes bs).1.Building := by
  induction bs generalizing p with
  | nil => exact h
  | cons b bs ih =>
    by_cases hfull : 14 ≤ p.wpos
    · rw [headBytes_full hfull]
      exact h
    · rw [headBytes_cons (by omega)]
      obtain ⟨hbuilding, hle⟩ := headByte_building h (by omega) b
      exact ih hbuilding hle

theorem Building.append {p : WebSocketPacket} (h : p.Building) (hw : 14 ≤ p.wpos)
    (src : List UInt8) : (p.append src).Building := by
  have hlen : (p.append src).storage.length = p.storage.length + src.length :=
    p.toByteBuffer.append_storage_length src
  have hpos : (p.append src).wpos = p.wpos + src.length := rfl
  rw [Building] at h ⊢
  omega

theorem Building.full {p : WebSocketPacket} (h : p.Building) (hw : 14 ≤ p.wpos) :
    p.toBasePacket.Full := by
  rw [Building] at h
  rw [BasePacket.Full]
  omega

/-- The frame that is handed to `onMsg` is as long as the one that was complete. -/
theorem dispatch_full {p q : WebSocketPacket} (h : p.toBasePacket.Full)
    (hq : .onMsg q ∈ p.dispatch) : q.toBasePacket.Full := by
  obtain ⟨p', hp', hfull⟩ : ∃ p' : WebSocketPacket,
      p' = (if p.getMask ≠ 0 then p.decodingDatas p.getMaskKey else p) ∧
        p'.toBasePacket.Full := by
    refine ⟨_, rfl, ?_⟩
    split
    · show p.wpos = (decodeLoop _ _ _ p.storage).length
      rw [decodeLoop_length]
      exact h
    · exact h
  simp only [dispatch, ← hp'] at hq
  split at hq
  · cases List.mem_singleton.mp hq
  · split at hq
    · cases List.mem_singleton.mp hq
    · cases List.mem_singleton.mp hq
      exact hfull

/-- What every turn of the loop keeps. -/
structure Sound (f : WebSocketFrames) : Prop where
  building : ∀ p, f.1 = some p → p.Building
  handed : ∀ p, .onMsg p ∈ f.2 → p.toBasePacket.Full

theorem Sound.turn {f : WebSocketFrames} (h : Sound f) {bs : List UInt8} (hbs : bs ≠ []) :
    Sound (frameReader.turn f bs).1 := by
  obtain ⟨p, hp⟩ : ∃ p : WebSocketPacket, f.1.getD frameReader.create = p := ⟨_, rfl⟩
  have hbuilding : p.Building := by
    cases hf : f.1 with
    | none =>
      rw [hf] at hp
      exact hp ▸ rfl
    | some q =>
      rw [hf] at hp
      exact hp ▸ h.building q hf
  cases hh : p.isHeadFull with
  | false =>
    have hw := (isHeadFull_eq_false_iff p).mp hh
    rw [PacketReader.turn_head (R := frameReader) hp hh, readHead_eq hh hbs]
    refine ⟨?_, h.handed⟩
    intro q hq
    obtain rfl := Option.some.inj hq
    exact headBytes_building hbuilding hw.le bs
  | true =>
    have hw := (isHeadFull_iff p).mp hh
    obtain ⟨k, hk⟩ : ∃ k, min (p.needsize).toNat bs.length = k := ⟨_, rfl⟩
    have hgrown := hbuilding.append hw (bs.take k)
    have hfull : (p.append (bs.take k)).toBasePacket.Full :=
      hgrown.full (hw.trans (Nat.le_add_right _ _))
    rw [PacketReader.turn_body (R := frameReader) hp hh bs hk]
    split
    · refine ⟨?_, ?_⟩
      · intro q hq
        cases hq
      intro q hq
      rcases List.mem_append.mp hq with hq | hq
      · exact h.handed q hq
      · exact dispatch_full hfull hq
    · refine ⟨?_, h.handed⟩
      intro q hq
      obtain rfl := Option.some.inj hq
      exact hgrown

end WebSocketPacket

namespace WebSocketConnect

open WebSocketPacket

variable (format : Tools.Format) (base64Sha1 : List UInt8 → List UInt8) {size : UInt32}

theorem sound_of_reads {s t : TcpSocketBase size WebSocketConnect} (hs : s.AtRest)
    {rs : List (Read size)} (h : EchoReads (onMsgbuffer format base64Sha1) s rs t)
    (hsound : Sound s.derived.frames) : Sound t.derived.frames := by
  induction rs generalizing s with
  | nil => exact h ▸ hsound
  | cons r rs ih =>
    obtain ⟨m, hm, ht⟩ := h
    refine ih (echoRead_reactions format base64Sha1 hs hm).2 ht ?_
    cases hh : s.derived.m_isHandshake with
    | true =>
      obtain ⟨f, hf, rfl⟩ := (echoRead_frames_iff format base64Sha1 hh hs r).mp hm
      exact hf.invariant (I := Sound) (fun _ _ hbs hI => hI.turn hbs) hsound
    | false =>
      -- the handshake reacts, and begins no frame
      obtain ⟨fuel, hf⟩ := hm
      rw [echoRead_handshake format base64Sha1 hh] at hf
      obtain ⟨c, hc, rfl⟩ := Option.map_eq_some_iff.mp hf
      rcases shakeHands_cases hc with ⟨-, rfl⟩ | ⟨host, key, msg, -, -, rfl⟩
      · refine ⟨hsound.building, ?_⟩
        intro p hp
        rcases List.mem_append.mp hp with hp | hp
        · exact hsound.handed p hp
        · cases List.mem_singleton.mp hp
      · refine ⟨hsound.building, ?_⟩
        intro p hp
        rcases List.mem_append.mp hp with hp | hp
        · exact hsound.handed p hp
        · simp at hp

/-- At every turn of the loop on a read, whatever has been received before. -/
theorem sound_of_turns {rs : List (Read size)} {s : TcpSocketBase size WebSocketConnect}
    (hs : EchoReads (onMsgbuffer format base64Sha1) (TcpSocketBase.fresh size fresh) rs s)
    (r : Read size) {q : WebSocketFrames × MessageBuffer size}
    (hq : Turns (fun q => decide (0 < q.2.getActiveSize)) frameBody
      (s.derived.frames, s.mBuffer.receive r) q) : Sound q.1 := by
  have hrest : s.AtRest := hs.atRest (TcpSocketBase.fresh_atRest fresh)
  have hbounds : (s.mBuffer.receive r).InBounds := hrest ▸ s.mBuffer.receive_inBounds r
  have hfresh : Sound (fresh.frames) := by
    refine ⟨?_, ?_⟩
    · intro p hp
      cases hp
    · intro p hp
      cases hp
  have hsound : Sound s.derived.frames :=
    sound_of_reads format base64Sha1 (TcpSocketBase.fresh_atRest fresh) hs hfresh
  have hkeep : ∀ q : WebSocketFrames × MessageBuffer size, q.2.InBounds ∧ Sound q.1 →
      decide (0 < q.2.getActiveSize) = true →
      (frameBody q).2.InBounds ∧ Sound (frameBody q).1 := by
    intro q hq hc
    have hpos : 0 < q.2.getActiveSize := by simpa using hc
    obtain ⟨k, hk, hbody, -⟩ := frameBody_implements q.1 q.2 hq.1 hpos
    have hne : q.2.active ≠ [] := List.length_pos_iff.mp (hq.1.active_length ▸ hpos)
    rw [show q = (q.1, q.2) from rfl, hbody]
    exact ⟨hq.1.readCompleted hk, hq.2.turn hne⟩
  exact (hq.invariant hkeep ⟨hbounds, hsound⟩).2

end WebSocketConnect

/-- As for net packets; a frame is handed to `onMsg` at a turn of the loop after the handshake. -/
inductive WebSocketPacket.Obtained : WebSocketPacket → Prop
  | fresh : Obtained construct
  | received (format : Tools.Format) (base64Sha1 : List UInt8 → List UInt8) {size : UInt32}
      {rs : List (Read size)} {s : TcpSocketBase size WebSocketConnect}
      (hs : EchoReads (WebSocketConnect.onMsgbuffer format base64Sha1)
        (TcpSocketBase.fresh size WebSocketConnect.fresh) rs s)
      (hh : s.derived.m_isHandshake = true) (r : Read size)
      {q : WebSocketFrames × MessageBuffer size}
      (hq : Turns (fun q => decide (0 < q.2.getActiveSize)) frameBody
        (s.derived.frames, s.mBuffer.receive r) q) {p : WebSocketPacket}
      (hp : .onMsg p ∈ q.1.2) : Obtained p
  | push {p : WebSocketPacket} (h : Obtained p) (v : PacketValue) :
      Obtained { p with toBasePacket := p.toBasePacket.push v }
  | get {p : WebSocketPacket} (h : Obtained p) (g : Getter) (hfits : g.Fits ⟨p.toBasePacket, []⟩) :
      Obtained { p with toBasePacket := g.after p.toBasePacket }
  | sent {p : WebSocketPacket} (h : Obtained p) : Obtained p.sendMsgPacket.2

namespace WebSocketPacket

theorem Obtained.full {p : WebSocketPacket} (h : p.Obtained) : p.toBasePacket.Full := by
  induction h with
  | fresh => exact BasePacket.construct_full _ _
  | received format base64Sha1 hs _ r hq hp =>
    exact (WebSocketConnect.sound_of_turns format base64Sha1 hs r hq).handed _ hp
  | push _ v ih => exact ih.push v
  | get _ g _ ih => exact ih.after g
  | sent _ _ => exact BasePacket.zero_full _

theorem sendData_eq {p q : WebSocketPacket} (hpos : p.m_headpos = q.m_headpos)
    (hw : p.wpos = q.wpos) (hs : p.sendData.sendStream = q.sendData.sendStream) :
    p.sendData = q.sendData := by
  have hsize : p.sendData.sendSize = q.sendData.sendSize := by
    show toInt32 (toSizeT ((p.wpos : Int) - p.m_headpos)) =
      toInt32 (toSizeT ((q.wpos : Int) - q.m_headpos))
    rw [hpos, hw]
  show SendData.mk _ _ _ _ = SendData.mk _ _ _ _
  rw [SendData.mk.injEq]
  exact ⟨hs, hsize⟩

/-- A frame that is queued shows a head, which depends on the length alone, and then the body. -/
theorem sendData_agree {p : WebSocketPacket} (h : p.toBasePacket.Full) :
    p.sendMsgPacket.1.sendData = (sendMsg p.toBasePacket.body).sendData := by
  have hlen := p.toBasePacket.body_length
  have hle : 14 ≤ p.wpos := h ▸ p.head_le
  -- the length that is announced, by either call
  obtain ⟨n, hn⟩ : ∃ n, toInt32 p.toBasePacket.body.length = n := ⟨_, rfl⟩
  have hsize : p.toBasePacket.getBodySize = n := by
    rw [← hn, BasePacket.getBodySize, toInt32_toSizeT, hlen, Int.ofNat_sub hle]
  obtain ⟨head, hle2, hle14, -, hhead⟩ := writeFrameHead_stream n BINARY_FRAME
  obtain ⟨hpos, hdrop⟩ := hhead { construct with toBasePacket := p.toBasePacket }
  obtain ⟨w, hw⟩ : ∃ w, construct.writeFrameHead n BINARY_FRAME = w := ⟨_, rfl⟩
  obtain ⟨hpos', hdrop'⟩ := hhead construct
  rw [hw] at hpos' hdrop'
  have hwpos : w.wpos = 14 := hw ▸ rfl
  have hmsg : sendMsg p.toBasePacket.body = w.append p.toBasePacket.body := by
    rw [sendMsg, hn, hw]
  have hpack : p.sendMsgPacket.1 =
      writeFrameHead { construct with toBasePacket := p.toBasePacket } n BINARY_FRAME := by
    rw [← hsize]
    rfl
  -- a new packet with a head is the head alone
  have hroom : 14 ≤ w.storage.length := w.head_le
  have hfull : w.toBasePacket.Full := by
    have hshown := congrArg List.length hdrop'
    have hnone : construct.storage.drop 14 = [] := rfl
    rw [hnone, List.append_nil, List.length_drop] at hshown
    rw [BasePacket.Full]
    omega
  have hstorage : (w.append p.toBasePacket.body).storage = w.storage ++ p.toBasePacket.body :=
    BasePacket.append_storage_of_full hfull _
  have hstream : (w.append p.toBasePacket.body).storage.drop (14 - head.length) =
      head ++ p.storage.drop 14 := by
    have hbody : p.storage.drop 14 = p.toBasePacket.body := h.body_eq.symm
    have hnone : construct.storage.drop 14 = [] := rfl
    rw [hstorage, List.drop_append_of_le_length (by omega), hdrop', hnone, List.append_nil, hbody]
  have hend : (w.append p.toBasePacket.body).wpos = p.wpos := by
    show w.wpos + p.toBasePacket.body.length = p.wpos
    rw [hlen, hwpos]
    simp only [WS_MAX_HEAD_SIZE]
    omega
  rw [hmsg, hpack]
  refine sendData_eq (hpos.trans hpos'.symm) hend.symm ?_
  show (writeFrameHead _ n BINARY_FRAME).storage.drop (writeFrameHead _ n BINARY_FRAME).m_headpos =
    (w.append p.toBasePacket.body).storage.drop w.m_headpos
  rw [hpos, hpos', hdrop, hstream]

end WebSocketPacket

/-! ## 3. Both classes -/

/-- Sending a packet queues the same wire bytes as sending its body, and leaves an empty packet:
what is pushed onto it next is all that the next message holds. -/
theorem send_paths_agree :
    (∀ pack : NetPacket, pack.Obtained → ∀ msgtype : UInt32,
      let sent := NetConnect.sendMsgPacket msgtype pack
      sent.1.sendData = (NetConnect.sendMsg msgtype pack.body).sendData ∧
        sent.2.body = [] ∧ sent.2.rpos = MSG_HEAD_SIZE ∧ sent.2.wpos = MSG_HEAD_SIZE ∧
        ∀ (msgtype' : UInt32) (values : List PacketValue),
          (NetConnect.sendMsgPacket msgtype' (sent.2.pushAll values)).1.sendData =
            (NetConnect.sendMsg msgtype' (values.flatMap PacketValue.bytes)).sendData) ∧
    (∀ pack : WebSocketPacket, pack.Obtained →
      let sent := pack.sendMsgPacket
      sent.1.sendData = (WebSocketPacket.sendMsg pack.toBasePacket.body).sendData ∧
        sent.2.toBasePacket.body = [] ∧ sent.2.rpos = WS_MAX_HEAD_SIZE ∧
        sent.2.wpos = WS_MAX_HEAD_SIZE ∧
        ∀ values : List PacketValue,
          ({ sent.2 with toBasePacket := sent.2.toBasePacket.pushAll values } :
              WebSocketPacket).sendMsgPacket.1.sendData =
            (WebSocketPacket.sendMsg (values.flatMap PacketValue.bytes)).sendData) := by
  refine ⟨?_, ?_⟩
  · intro pack hpack msgtype sent
    refine ⟨NetPacket.sendData_agree hpack.full msgtype, BasePacket.body_eq_nil _ rfl, rfl, rfl, ?_⟩
    intro msgtype' values
    -- the caller has got the storage of the new packet
    have hleft : sent.2 = BasePacket.zero NetConnect.createPacket := rfl
    rw [hleft, NetPacket.sendData_agree ((BasePacket.zero_full _).pushAll values),
      BasePacket.zero_pushAll_body]
  · intro pack hpack sent
    refine ⟨WebSocketPacket.sendData_agree hpack.full, BasePacket.body_eq_nil _ rfl, rfl, rfl, ?_⟩
    intro values
    have hleft : sent.2.toBasePacket = WebSocketPacket.construct.toBasePacket.zero := rfl
    rw [hleft, ← BasePacket.zero_pushAll_body WebSocketPacket.construct.toBasePacket values]
    exact WebSocketPacket.sendData_agree ((BasePacket.zero_full _).pushAll values)

/-- A packet of either class with two numbers, the first of them read, and the packet of the message
that `NetConnect` has read before. -/
theorem send_paths_agree_two :
    (NetConnect.sendMsgPacket 3 (Getter.getUint8.after ((NetConnect.createPacket.push
        (.uint8 7)).push (.uint16 258)))).1.sendData =
      (NetConnect.sendMsg 3 [7, 2, 1]).sendData ∧
    (NetConnect.sendMsgPacket 3 NetConnect.oneByteMessage.packet).1.sendData =
      (NetConnect.sendMsg 3 [104]).sendData ∧
    (WebSocketPacket.sendMsgPacket { WebSocketPacket.construct with
        toBasePacket := Getter.getUint8.after ((WebSocketPacket.construct.toBasePacket.push
          (.uint8 7)).push (.uint16 258)) }).1.sendData =
      (WebSocketPacket.sendMsg [7, 2, 1]).sendData := by
  have hnone : EchoReads NetConnect.onMsgbuffer
      (TcpSocketBase.fresh MESSAGE_BUFFER_SIZE NetConnect.fresh) []
      (TcpSocketBase.fresh MESSAGE_BUFFER_SIZE NetConnect.fresh) := rfl
  refine ⟨(send_paths_agree.1 _ (.get (.push (.push .fresh _) _) _ ?_) 3).1,
    (send_paths_agree.1 _ (.received hnone NetConnect.oneByteRead NetConnect.oneByteTurns_turns
      NetConnect.oneByteMessage_mem) 3).1, ?_⟩
  · decide
  · have hpushed := (WebSocketPacket.Obtained.fresh.push (.uint8 7)).push (.uint16 258)
    have hobtained := hpushed.get .getUint8 (by decide)
    have hbody : (Getter.getUint8.after ((WebSocketPacket.construct.toBasePacket.push
        (.uint8 7)).push (.uint16 258))).body = [7, 2, 1] := by decide
    rw [← hbody]
    exact (send_paths_agree.2 _ hobtained).1

end LuaServer
