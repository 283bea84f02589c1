import LuaServer.Network.NetPacket
import LuaServer.Network.PacketLoop

/-!
# NetConnect — messages on a TCP stream

`on_msgbuffer` collects one packet at a time in `mReadPacket` and hands it to `onMsg`; `sendMsg`
queues one packet for each message.  `netReader` states the receiving side as a packet reader and
`onMsgbuffer_implements` shows that the loop on the read buffer is that reader.
-/

open Reasoning

namespace LuaServer

/-- A call `_netevent->onMsg(this, msgtype, packet)`. -/
structure OnMsg where
  msgtype : Int
  packet : NetPacket
deriving DecidableEq

/-- `mReadPacket`, if there is one, and the `onMsg` calls made so far, oldest first. -/
abbrev NetConnect : Type := Option NetPacket × List OnMsg

namespace NetConnect

abbrev mReadPacket (c : NetConnect) : Option NetPacket := c.1

abbrev calls (c : NetConnect) : List OnMsg := c.2

def fresh : NetConnect := (none, [])

/-! ## Receiving -/

def createPacket : NetPacket := BasePacket.construct MSG_HEAD_SIZE []

/-- `createPacket()` followed by `wpos(0)`. -/
def beginPacket : NetPacket := createPacket.setWpos 0 (Nat.zero_le _)

/-- `getMarkLen() + MSG_HEAD_SIZE - wpos()` as an `int32`. -/
def needsize (p : NetPacket) : Int :=
  toInt32 (toSizeT (p.getMarkLen + MSG_HEAD_SIZE - p.wpos))

/-- `wpos() == getMarkLen() + MSG_HEAD_SIZE`, compared in `size_t`. -/
def isComplete (p : NetPacket) : Bool := decide (p.wpos = toSizeT (p.getMarkLen + MSG_HEAD_SIZE))

variable {size : UInt32}

/-- What the loop of `on_msgbuffer` does with a packet. -/
def packetOps : PacketOps NetPacket OnMsg where
  begin := beginPacket
  isHeadFull := NetPacket.isHeadFull
  readHead := NetPacket.readHead
  needsize := needsize
  append := BasePacket.append
  isComplete := isComplete
  dispatch p := [⟨p.getMsgType, p⟩]

def onMsgbufferBody : NetConnect × MessageBuffer size → NetConnect × MessageBuffer size :=
  packetOps.body

def onMsgbuffer : OnMsgbuffer size NetConnect := whileActive onMsgbufferBody

/-! ## Sending -/

/-- `sendMsg(msgtype, pack)`: the packet that is queued and what is left in the caller's packet. -/
def sendMsgPacket (msgtype : UInt32) (pack : NetPacket) : NetPacket × NetPacket :=
  let moved := createPacket.moveData pack
  (NetPacket.writeHead moved.1 (toInt32 msgtype.toNat), moved.2)

/-- `sendMsg(msgtype, msg, len)`: the packet that is queued. -/
def sendMsg (msgtype : UInt32) (msg : List UInt8) : NetPacket :=
  NetPacket.writeHead (createPacket.append msg) (toInt32 msgtype.toNat)

/-- What a queued packet puts on the wire: its head and its body. -/
def wire (p : NetPacket) : List UInt8 := p.storage.take p.wpos

theorem sendData_bytes (p : NetPacket) (h : p.wpos < 2 ^ 31) : p.sendData.bytes = wire p := by
  show p.storage.take (toSizeT (toInt32 p.wpos)) = _
  rw [toInt32_of_lt h, toSizeT_of_lt (by omega) (by omega), Int.toNat_natCast, wire]

/-! ## The receiving side as a packet reader -/

def netReader : PacketReader NetPacket OnMsg UInt8 := packetOps.reader

theorem needsize_lt (p : NetPacket) : needsize p < 2 ^ 31 := by
  have h := toInt32_bounds (toSizeT (p.getMarkLen + MSG_HEAD_SIZE - p.wpos))
  exact h.2

theorem needsize_append (p : NetPacket) (src : List UInt8) (h : 8 ≤ p.wpos)
    (hle : (src.length : Int) ≤ needsize p) :
    needsize (p.append src) = needsize p - src.length := by
  rw [needsize, NetPacket.getMarkLen_append p src h, BasePacket.append_wpos]
  unfold needsize toInt32 toSizeT at *
  simp only [MSG_HEAD_SIZE] at *
  omega

theorem isComplete_eq_false (p : NetPacket) (h : 0 < needsize p) : isComplete p = false := by
  rw [isComplete, decide_eq_false_iff_not]
  intro he
  unfold needsize toInt32 toSizeT at *
  simp only [MSG_HEAD_SIZE] at *
  omega

theorem netReader_lawful : netReader.Lawful where
  head_frame p a b hh ha hleft := by
    have hw := (NetPacket.isHeadFull_eq_false_iff p).mp hh
    simp only [netReader, PacketOps.reader, packetOps, NetPacket.readHead_eq p hw] at hleft ⊢
    -- something is left, so the head ends in `a`
    have hlt : 8 - p.wpos < a.length := by
      have := List.length_pos_iff.mpr hleft
      rw [List.length_drop] at this
      omega
    have h1 : min (8 - p.wpos) a.length = 8 - p.wpos := by omega
    have h2 : min (8 - p.wpos) (a ++ b).length = 8 - p.wpos := by
      rw [List.length_append]; omega
    rw [h1, h2, List.take_append_of_le_length (by omega), List.drop_append_of_le_length (by omega)]
  head_resume p a b hh ha hb hleft := by
    have hw := (NetPacket.isHeadFull_eq_false_iff p).mp hh
    simp only [netReader, PacketOps.reader, packetOps, NetPacket.readHead_eq p hw] at hleft ⊢
    have hle : a.length ≤ 8 - p.wpos := by
      have := List.drop_eq_nil_iff.mp hleft
      omega
    have h1 : min (8 - p.wpos) a.length = a.length := by omega
    rw [h1, List.take_length]
    by_cases heq : a.length = 8 - p.wpos
    · -- the head ends with `a`
      have h2 : min (8 - p.wpos) (a ++ b).length = a.length := by
        rw [List.length_append]; omega
      rw [h2, List.take_left, List.drop_left]
      exact .inl rfl
    · -- the head goes on in `b`
      have hw' : (p.fill a).wpos < 8 := by rw [BasePacket.fill_wpos]; omega
      have h2 : min (8 - p.wpos) (a ++ b).length =
          a.length + min (8 - (p.fill a).wpos) b.length := by
        rw [List.length_append, BasePacket.fill_wpos]; omega
      refine .inr ⟨(NetPacket.isHeadFull_eq_false_iff _).mpr hw', ?_⟩
      rw [NetPacket.readHead_eq (p.fill a) hw', h2, List.take_length_add_append,
        List.drop_length_add_append, BasePacket.fill_fill]
  append_nil p := p.append_nil
  append_append p a b := p.append_append a b
  headFull_append p a h := by
    have hw := (NetPacket.isHeadFull_iff p).mp h
    apply (NetPacket.isHeadFull_iff _).mpr
    change 8 ≤ p.wpos + a.length
    omega
  needsize_append p a h hle := needsize_append p a ((NetPacket.isHeadFull_iff p).mp h) hle
  complete_eq_false p _ hn := isComplete_eq_false p hn

theorem onMsgbuffer_implements : Implements (@onMsgbufferBody size) netReader.turn := by
  refine packetOps.implements ?_ ?_ ?_ BasePacket.append_nil
  · intro p src n hh
    have hw := (NetPacket.isHeadFull_eq_false_iff p).mp hh
    simp only [packetOps]
    rw [NetPacket.readHead_eq p hw, NetPacket.readHead_eq p hw, List.take_take,
      Nat.min_eq_left (Nat.min_le_right _ _)]
  · intro p src hh _
    have hw := (NetPacket.isHeadFull_eq_false_iff p).mp hh
    simp only [packetOps]
    rw [NetPacket.readHead_eq p hw]
    exact Nat.min_le_right _ _
  · exact needsize_lt

end NetConnect

end LuaServer
