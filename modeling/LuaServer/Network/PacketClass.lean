import LuaServer.Common.PacketValues
import LuaServer.Network.KcpSession
import LuaServer.Network.NetPacket
import LuaServer.Network.WebSocketPacket

/-!
# PacketClass — the packet classes and their heads

The classes differ in the room that they reserve for a head in front of the body.  Values are pushed
and got in the same way in all of them.
-/

open Reasoning

namespace LuaServer

inductive PacketClass
  | BasePacket
  | NetPacket
  | UdpPacket
  | WebSocketPacket
deriving DecidableEq

namespace PacketClass

/-- The virtual `getHeadSize()`. -/
def getHeadSize : PacketClass → Nat
  | BasePacket => 0
  | NetPacket => MSG_HEAD_SIZE
  | UdpPacket => UDP_PACK_HEAD_SIZE
  | WebSocketPacket => WS_MAX_HEAD_SIZE

/-- Whatever is pushed onto a new packet, the getters of the same types give it back in the same
order; then the packet has been read to its end, and its head is as it was. -/
theorem push_get_round_trip (cls : PacketClass) (pooled : List UInt8)
    (values : List PacketValue) :
    let packet := LuaServer.BasePacket.construct cls.getHeadSize pooled
    let read := (packet.pushAll values).getAll (values.map PacketValue.getter)
    read.1 = values.map PacketValue.result ∧ read.2.rpos = read.2.wpos ∧
      read.2.storage.take cls.getHeadSize = packet.storage.take cls.getHeadSize := by
  intro packet read
  have hfull : packet.wpos = packet.storage.length := (resize_length _ _).symm
  obtain ⟨hresults, hlast⟩ := BasePacket.getAll_pushAll hfull rfl values
  refine ⟨hresults, ?_, ?_⟩
  · show (BasePacket.getAll _ _).2.rpos = (BasePacket.getAll _ _).2.wpos
    rw [hlast]
  · show (BasePacket.getAll _ _).2.storage.take _ = _
    rw [hlast, BasePacket.pushAll_eq_append]
    exact packet.toByteBuffer.append_take _

end PacketClass

end LuaServer
