import LuaServer.Network.WebSocketPacket

/-!
# WebSocketSend — the frames that a connection sends

`sendMsg` writes one binary frame without a mask.  The extended length goes out in the order of the
host, so the reference decoder reads it back only when both orders agree.
-/

open Reasoning

namespace LuaServer

/-- A call of `sendMsg`: with a packet, which has room for its head, or with bytes. -/
inductive WebSocketSend
  | pack (pack : WebSocketPacket) (head_le : WS_MAX_HEAD_SIZE ≤ pack.wpos)
  | msg (msg : List UInt8)

/-- `sendMsg(pack)`: the packet that is queued and what is left in the caller's packet. -/
def WebSocketPacket.sendMsgPacket (pack : WebSocketPacket) : WebSocketPacket × WebSocketPacket :=
  construct.moveData pack

def WebSocketPacket.sendMsg (msg : List UInt8) : WebSocketPacket :=
  (construct.writeFrameHead (toInt32 msg.length) BINARY_FRAME).append msg

namespace WebSocketSend

open WebSocketPacket WebSocketFrame

def queued : WebSocketSend → WebSocketPacket
  | pack p _ => (sendMsgPacket p).1
  | msg m => sendMsg m

def body : WebSocketSend → List UInt8
  | pack p _ => p.toBasePacket.body
  | msg m => m

/-- Both ways of sending show the head and then the body. -/
theorem queued_bytes (m : WebSocketSend) (h : m.body.length < 2 ^ 31 - 14) :
    m.queued.sendData.bytes = writtenHead m.body.length BINARY_FRAME ++ m.body := by
  cases m with
  | pack p hle =>
    have hp : p.toBasePacket.body.length < 2 ^ 31 - 14 := h
    have hlen : p.toBasePacket.body.length = p.wpos - 14 := p.toBasePacket.body_length
    -- `moveData` takes the buffer over and writes the head in front of its body
    have hsize : p.toBasePacket.getBodySize = (p.toBasePacket.body.length : Nat) := by
      show toInt32 (toSizeT ((p.wpos : Int) - (14 : Nat))) = _
      rw [toInt32_toSizeT, ← Int.ofNat_sub hle, hlen]
      exact toInt32_of_lt (by simp only [WS_MAX_HEAD_SIZE]; omega)
    show (writeFrameHead { construct with toBasePacket := p.toBasePacket }
      p.toBasePacket.getBodySize BINARY_FRAME).sendData.bytes = _
    rw [hsize]
    obtain ⟨hshown, hpos⟩ := writeFrameHead_shown
      { construct with toBasePacket := p.toBasePacket } hle
      (show p.toBasePacket.body.length < 2 ^ 31 by omega) BINARY_FRAME
    rw [sendData_bytes, hshown]
    · rfl
    · exact hpos.trans ((by decide : 12 ≤ 14).trans hle)
    · apply lt_of_le_of_lt (Nat.sub_le _ _)
      show p.wpos < 2 ^ 31
      simp only [WS_MAX_HEAD_SIZE] at hle
      omega
  | msg m =>
    have hm : m.length < 2 ^ 31 - 14 := h
    obtain ⟨hshown, hpos⟩ := writeFrameHead_shown construct (le_refl _)
      (show m.length < 2 ^ 31 by omega) BINARY_FRAME
    show ((construct.writeFrameHead (toInt32 m.length) BINARY_FRAME).append m).sendData.bytes = _
    rw [toInt32_of_lt (by omega), sendData_bytes, shown_append, hshown,
      BasePacket.body_eq_nil _ rfl, List.append_nil]
    · rfl
    · exact hpos.trans (show 12 ≤ 14 by decide)
    · exact hpos.trans (by show 12 ≤ 14 + m.length; omega)
    · apply lt_of_le_of_lt (Nat.sub_le _ _)
      show 14 + m.length < 2 ^ 31
      omega

/-! ## What the reference decoder makes of it -/

theorem beNat_leBytes_two {n : Nat} (h : n ≤ 65535) :
    beNat (leBytes 2 n) = 256 * (n % 256) + n / 256 := by
  have hlo : (UInt8.ofNat n).toNat = n % 256 := UInt8.toNat_ofNat'
  have hhi : (UInt8.ofNat (n / 256)).toNat = n / 256 % 256 := UInt8.toNat_ofNat'
  show (UInt8.ofNat (n / 256)).toNat + 256 * ((UInt8.ofNat n).toNat + 256 * 0) = _
  omega

theorem beNat_leBytes_eight {n : Nat} (h : n < 2 ^ 32) : beNat (leBytes 8 n) % 2 ^ 32 = 0 := by
  have hsplit : leBytes 8 n = leBytes 4 n ++ leBytes 4 (n / 256 ^ 4) := leBytes_add 4 4 n
  rw [hsplit, Nat.div_eq_of_lt (by omega), leBytes_zero, beNat, List.reverse_append,
    List.reverse_replicate, leNat_append, leNat_replicate_zero, List.length_replicate, Nat.zero_add]
  exact Nat.mul_mod_right _ _

/-- The bytes that are sent are one binary frame with the body exactly when the length fits into
seven bits or has two equal bytes. -/
theorem decode_queued_iff (m : WebSocketSend) (h : m.body.length < 2 ^ 31 - 14) :
    decode m.queued.sendData.bytes = some (⟨0x82, none, m.body⟩, []) ↔
      m.body.length ≤ 125 ∨
        m.body.length ≤ 65535 ∧ m.body.length / 256 = m.body.length % 256 := by
  rw [queued_bytes m h]
  by_cases h125 : m.body.length ≤ 125
  · -- one byte has no order
    refine iff_of_true ?_ (.inl h125)
    have henc : writtenHead m.body.length BINARY_FRAME ++ m.body =
        encode ⟨0x82, none, m.body⟩ ++ [] := by
      show _ = 0x82 :: UInt8.ofNat (0 + shortLength m.body.length) ::
        (extendedLength m.body.length ++ [] ++ m.body) ++ []
      rw [writtenHead, shortLength, extendedLength, if_pos h125, if_pos h125, if_pos h125,
        Nat.zero_add, List.append_nil, List.append_nil]
      rfl
    rw [henc]
    exact decode_encode _ (by show m.body.length < 2 ^ 64; omega) []
  by_cases hword : m.body.length ≤ 65535
  · have hsplit := splitOff_append (leBytes 2 m.body.length) m.body
    rw [leBytes_length] at hsplit
    have hlen : decodeLength ((126 : UInt8).toNat % 128) (leBytes 2 m.body.length ++ m.body) =
        some (beNat (leBytes 2 m.body.length), m.body) := by
      rw [show (126 : UInt8).toNat % 128 = 126 from rfl, decodeLength]
      simp [hsplit]
    rw [writtenHead, if_neg h125, if_pos hword]
    show decode (UInt8.ofNat BINARY_FRAME :: 126 :: (leBytes 2 m.body.length ++ m.body)) = _ ↔ _
    rw [show UInt8.ofNat BINARY_FRAME = 0x82 from rfl, decode_unmasked_iff (by decide) hlen,
      beNat_leBytes_two hword]
    omega
  · have hsplit := splitOff_append (leBytes 8 m.body.length) m.body
    rw [leBytes_length] at hsplit
    have hlen : decodeLength ((127 : UInt8).toNat % 128) (leBytes 8 m.body.length ++ m.body) =
        some (beNat (leBytes 8 m.body.length), m.body) := by
      rw [show (127 : UInt8).toNat % 128 = 127 from rfl, decodeLength]
      simp [hsplit]
    -- the high bytes of a small number are zero, so in the other order it is a multiple of `2 ^ 32`
    have hzero := beNat_leBytes_eight (show m.body.length < 2 ^ 32 by omega)
    rw [writtenHead, if_neg h125, if_neg hword]
    show decode (UInt8.ofNat BINARY_FRAME :: 127 :: (leBytes 8 m.body.length ++ m.body)) = _ ↔ _
    rw [show UInt8.ofNat BINARY_FRAME = 0x82 from rfl, decode_unmasked_iff (by decide) hlen]
    omega

/-- A packet with two bytes, and a message whose length has two equal bytes. -/
theorem decode_queued_iff_two :
    decode (pack (construct.append [104, 105]) (by decide)).queued.sendData.bytes =
        some (⟨0x82, none, [104, 105]⟩, []) ∧
      decode (msg (List.replicate 257 104)).queued.sendData.bytes =
        some (⟨0x82, none, List.replicate 257 104⟩, []) := by
  constructor
  · exact (decode_queued_iff (pack (construct.append [104, 105]) (by decide)) (by decide)).mpr
      (.inl (by decide))
  · have hlen : (msg (List.replicate 257 104)).body.length = 257 := List.length_replicate
    exact (decode_queued_iff (msg (List.replicate 257 104)) (by rw [hlen]; decide)).mpr
      (.inr (by rw [hlen]; decide))

/-- A message of 126 bytes is announced with a length of 32256. -/
theorem long_frame_not_decoded :
    ¬ decode (msg (List.replicate 126 0)).queued.sendData.bytes =
      some (⟨0x82, none, (msg (List.replicate 126 0)).body⟩, []) := by
  decide +kernel

end WebSocketSend

end LuaServer
