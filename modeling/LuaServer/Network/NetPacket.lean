import LuaServer.Common.ByteBuffer

/-!
# NetPacket — a message with the head (msglen : uint32, msgtype : uint32)
-/

open Reasoning

namespace LuaServer

abbrev MSG_LEN_POS : Nat := 0

abbrev MSG_TYPE_POS : Nat := 4

abbrev MSG_HEAD_SIZE : Nat := 8

abbrev NetPacket : Type := BasePacket MSG_HEAD_SIZE

namespace NetPacket

/-- message head mark length -/
def getMarkLen (p : NetPacket) : Int := toInt32 (p.getValue MSG_LEN_POS 4)

def getMsgType (p : NetPacket) : Int := toInt32 (p.getValue MSG_TYPE_POS 4)

def isHeadFull (p : NetPacket) : Bool := decide (MSG_HEAD_SIZE ≤ p.wpos)

-- the overrides of `sendSize` and `sendStream` repeat those of the base class
def sendData (p : NetPacket) : SendData := BasePacket.sendData p

def writeHead (p : NetPacket) (msgtype : Int) : NetPacket :=
  (p.put MSG_LEN_POS (leBytes 4 (toUint32 p.getBodySize))).put MSG_TYPE_POS
    (leBytes 4 (toUint32 msgtype))

/-- Stores what the head still needs of the `size` bytes at `src`; the number of bytes taken. -/
def readHead (p : NetPacket) (src : List UInt8) (size : Nat) : NetPacket × Nat :=
  let rsize := toInt32 (toSizeT ((MSG_HEAD_SIZE : Int) - p.wpos))
  if rsize ≤ 0 then (p, 0)
  else
    let n := if rsize.toNat ≤ size then rsize.toNat else size
    (p.fill (src.take n), n)

/-! ## Writing the head -/

@[simp] theorem writeHead_wpos (p : NetPacket) (msgtype : Int) :
    (p.writeHead msgtype).wpos = p.wpos := rfl

theorem writeHead_storage (p : NetPacket) (msgtype : Int) :
    (p.writeHead msgtype).storage =
      leBytes 4 (toUint32 p.getBodySize) ++ leBytes 4 (toUint32 msgtype) ++ p.storage.drop 8 := by
  change overwrite (overwrite p.storage 0 (leBytes 4 (toUint32 p.getBodySize)))
    (0 + (leBytes 4 (toUint32 p.getBodySize)).length) (leBytes 4 (toUint32 msgtype)) = _
  rw [overwrite_overwrite (Nat.zero_le _), overwrite_zero, List.length_append, leBytes_length,
    leBytes_length]

theorem writeHead_take (p : NetPacket) (msgtype : Int) (h : 8 ≤ p.wpos) :
    (p.writeHead msgtype).storage.take p.wpos =
      leBytes 4 (toUint32 p.getBodySize) ++ leBytes 4 (toUint32 msgtype) ++ p.body := by
  rw [writeHead_storage, List.take_append, List.take_of_length_le (by simpa using h),
    BasePacket.body, List.drop_take]
  simp only [List.length_append, leBytes_length, MSG_HEAD_SIZE]

/-! ## Reading the head -/

theorem isHeadFull_iff (p : NetPacket) : p.isHeadFull = true ↔ 8 ≤ p.wpos := by
  rw [isHeadFull, decide_eq_true_eq]

theorem isHeadFull_eq_false_iff (p : NetPacket) : p.isHeadFull = false ↔ p.wpos < 8 := by
  rw [isHeadFull, decide_eq_false_iff_not, Nat.not_le]

theorem readHead_eq (p : NetPacket) (h : p.wpos < 8) (src : List UInt8) (size : Nat) :
    p.readHead src size = (p.fill (src.take (min (8 - p.wpos) size)), min (8 - p.wpos) size) := by
  have hr : toInt32 (toSizeT ((MSG_HEAD_SIZE : Int) - p.wpos)) = (8 - p.wpos : Nat) := by
    rw [toInt32_toSizeT, ← Int.ofNat_sub (Nat.le_of_lt h)]
    exact toInt32_of_lt (by omega)
  have hn : (if 8 - p.wpos ≤ size then 8 - p.wpos else size) = min (8 - p.wpos) size := by
    split <;> omega
  have hpos : ¬ ((8 - p.wpos : Nat) : Int) ≤ 0 := by omega
  simp only [readHead, hr, if_neg hpos, Int.toNat_natCast, hn]

theorem getMarkLen_append (p : NetPacket) (src : List UInt8) (h : 8 ≤ p.wpos) :
    getMarkLen (p.append src) = p.getMarkLen := by
  rw [getMarkLen, p.append_getValue src (by simp only [MSG_LEN_POS]; omega), getMarkLen]

theorem getMsgType_append (p : NetPacket) (src : List UInt8) (h : 8 ≤ p.wpos) :
    getMsgType (p.append src) = p.getMsgType := by
  rw [getMsgType, p.append_getValue src (by simp only [MSG_TYPE_POS]; omega), getMsgType]

end NetPacket

end LuaServer
