import LuaServer.Reasoning.Bytes
import LuaServer.Reasoning.MachineInt

/-!
# ByteBuffer — the storage and the cursors of a packet

`ByteBuffer` is a byte vector with a read and a write cursor; the write cursor never leaves the
vector.  `BasePacket headSize` is a buffer whose first `headSize` bytes are reserved for a head:
`headSize` is what the virtual `getHeadSize()` of the packet class answers.  `EndianConvert` is the
identity in the configured build, so a value is stored in the byte order of the host.
-/

open Reasoning

namespace LuaServer

/-- `std::vector::resize`: new places are zero. -/
def resize (l : List UInt8) (n : Nat) : List UInt8 := l.take n ++ List.replicate (n - l.length) 0

@[simp] theorem resize_length (l : List UInt8) (n : Nat) : (resize l n).length = n := by
  simp only [resize, List.length_append, List.length_take, List.length_replicate]
  omega

theorem resize_zero (l : List UInt8) : resize l 0 = [] :=
  List.length_eq_zero_iff.mp (resize_length l 0)

/-- wpos points to the first byte that can be written, rpos at the next byte that can be read. -/
@[ext] structure ByteBuffer where
  storage : List UInt8
  rpos : Nat
  wpos : Nat
  wpos_le : wpos ≤ storage.length
deriving DecidableEq

namespace ByteBuffer

def DEFAULT_SIZE : Nat := 0x1000

/-- Inserts at the write cursor. -/
def append (b : ByteBuffer) (src : List UInt8) : ByteBuffer where
  storage := b.storage.take b.wpos ++ src ++ b.storage.drop b.wpos
  rpos := b.rpos
  wpos := b.wpos + src.length
  wpos_le := by
    have h := b.wpos_le
    simp only [List.length_append, List.length_take, List.length_drop]
    omega

/-- `memcpy` into the storage.  In the source a copy past the end of the storage is undefined; here
it would lengthen the storage, and the packet classes show where they copy inside (`put_length`). -/
def put (b : ByteBuffer) (pos : Nat) (src : List UInt8) : ByteBuffer where
  storage := overwrite b.storage pos src
  rpos := b.rpos
  wpos := b.wpos
  wpos_le := le_trans b.wpos_le (le_overwrite_length _ _ _)

/-- The `width` bytes at `pos` as an unsigned word. -/
def getValue (b : ByteBuffer) (pos width : Nat) : Nat := leNat ((b.storage.drop pos).take width)

theorem append_storage (b : ByteBuffer) (src : List UInt8) :
    (b.append src).storage = b.storage.take b.wpos ++ src ++ b.storage.drop b.wpos := rfl

@[simp] theorem append_wpos (b : ByteBuffer) (src : List UInt8) :
    (b.append src).wpos = b.wpos + src.length := rfl

@[simp] theorem append_rpos (b : ByteBuffer) (src : List UInt8) : (b.append src).rpos = b.rpos :=
  rfl

theorem append_storage_length (b : ByteBuffer) (src : List UInt8) :
    (b.append src).storage.length = b.storage.length + src.length := by
  have h := b.wpos_le
  simp only [append, List.length_append, List.length_take, List.length_drop]
  omega

@[simp] theorem append_nil (b : ByteBuffer) : b.append [] = b := by
  ext1 <;> simp [append]

theorem append_append (b : ByteBuffer) (x y : List UInt8) :
    (b.append x).append y = b.append (x ++ y) := by
  have hl : (b.storage.take b.wpos ++ x).length = b.wpos + x.length := by
    rw [List.length_append, List.length_take, Nat.min_eq_left b.wpos_le]
  ext1
  · simp only [append]
    rw [List.take_left' hl, List.drop_left' hl]
    simp only [List.append_assoc]
  · rfl
  · simp only [append_wpos, List.length_append]
    omega

theorem append_take (b : ByteBuffer) (src : List UInt8) :
    (b.append src).storage.take b.wpos = b.storage.take b.wpos := by
  rw [append_storage, List.append_assoc, List.take_append_of_le_length, List.take_take,
    Nat.min_self]
  rw [List.length_take, Nat.min_eq_left b.wpos_le]

theorem append_take_wpos (b : ByteBuffer) (src : List UInt8) :
    (b.append src).storage.take (b.append src).wpos = b.storage.take b.wpos ++ src := by
  rw [append_storage, append_wpos, List.take_left']
  rw [List.length_append, List.length_take, Nat.min_eq_left b.wpos_le]

theorem append_getValue (b : ByteBuffer) (src : List UInt8) {pos width : Nat}
    (h : pos + width ≤ b.wpos) : (b.append src).getValue pos width = b.getValue pos width := by
  have hw : ∀ l : List UInt8, (l.drop pos).take width = ((l.take b.wpos).drop pos).take width := by
    intro l
    rw [List.drop_take, List.take_take, Nat.min_eq_left (by omega)]
  rw [getValue, getValue, hw, append_take, ← hw]

end ByteBuffer

/-- What the virtual `sendStream()` and `sendSize()` of a packet answer: the bytes from a pointer on
and an `int32`. -/
structure SendData where
  sendStream : List UInt8
  sendSize : Int
  lo : -2 ^ 31 ≤ sendSize
  hi : sendSize < 2 ^ 31
deriving DecidableEq

def SendData.bytes (d : SendData) : List UInt8 := d.sendStream.take (toSizeT d.sendSize)

/-- A packet whose storage begins with `headSize` bytes for its head. -/
@[ext] structure BasePacket (headSize : Nat) extends ByteBuffer where
  head_le : headSize ≤ storage.length
deriving DecidableEq

namespace BasePacket

variable {headSize : Nat}

/-- `zero()`: the storage is cut to the head and both cursors stand behind it. -/
def zero (p : BasePacket headSize) : BasePacket headSize where
  storage := resize p.storage headSize
  rpos := headSize
  wpos := headSize
  wpos_le := by rw [resize_length]
  head_le := by rw [resize_length]

/-- The constructor: `BasePacket::zero` empties the buffer it gets from the pool, then `zero` of the
class makes room for the head. -/
def construct (headSize : Nat) (pooled : List UInt8) : BasePacket headSize where
  storage := resize (resize pooled 0) headSize
  rpos := headSize
  wpos := headSize
  wpos_le := by rw [resize_length]
  head_le := by rw [resize_length]

/-- What the pooled buffer held does not show. -/
theorem construct_pooled (pooled : List UInt8) :
    construct headSize pooled = construct headSize [] := by
  ext1 <;> simp only [construct, resize_zero]

/-- `wpos(n)` for a place inside the storage. -/
def setWpos (p : BasePacket headSize) (n : Nat) (h : n ≤ p.storage.length) :
    BasePacket headSize :=
  { p with wpos := n, wpos_le := h }

def append (p : BasePacket headSize) (src : List UInt8) : BasePacket headSize where
  toByteBuffer := p.toByteBuffer.append src
  head_le := by rw [p.toByteBuffer.append_storage_length]; exact Nat.le_add_right_of_le p.head_le

def put (p : BasePacket headSize) (pos : Nat) (src : List UInt8) : BasePacket headSize where
  toByteBuffer := p.toByteBuffer.put pos src
  head_le := le_trans p.head_le (le_overwrite_length _ _ _)

/-- `_wpos += n` inside the storage; the packet classes never move it further. -/
def advance (p : BasePacket headSize) (n : Nat) : BasePacket headSize :=
  if h : p.wpos + n ≤ p.storage.length then { p with wpos := p.wpos + n, wpos_le := h } else p

/-- `put(wpos(), src, n)` followed by `_wpos += n`: how the classes with a head read it. -/
def fill (p : BasePacket headSize) (src : List UInt8) : BasePacket headSize :=
  { p.put p.wpos src with
      wpos := p.wpos + src.length
      wpos_le := le_overwrite_length_of_le src p.wpos_le }

/-- `wpos() - getHeadSize()` as an `int32`. -/
def getBodySize (p : BasePacket headSize) : Int := toInt32 (toSizeT (p.wpos - headSize))

def sendData (p : BasePacket headSize) : SendData where
  sendStream := p.storage
  sendSize := toInt32 p.wpos
  lo := (toInt32_bounds _).1
  hi := (toInt32_bounds _).2

/-- The bytes between the head and the write cursor. -/
def body (p : BasePacket headSize) : List UInt8 := (p.storage.take p.wpos).drop headSize

/-- The packet that takes the buffer over and the packet that is left behind: `moveData` swaps the
storages, takes the cursors of `packet` and zeroes `packet`. -/
def moveData (p packet : BasePacket headSize) : BasePacket headSize × BasePacket headSize :=
  (packet, p.zero)

@[simp] theorem fill_wpos (p : BasePacket headSize) (src : List UInt8) :
    (p.fill src).wpos = p.wpos + src.length := rfl

theorem fill_storage (p : BasePacket headSize) (src : List UInt8) :
    (p.fill src).storage = overwrite p.storage p.wpos src := rfl

theorem fill_fill (p : BasePacket headSize) (x y : List UInt8) :
    (p.fill x).fill y = p.fill (x ++ y) := by
  ext1
  · exact overwrite_overwrite p.wpos_le
  · rfl
  · simp only [fill_wpos, List.length_append, Nat.add_assoc]

@[simp] theorem fill_nil (p : BasePacket headSize) : p.fill [] = p := by
  ext1
  · exact overwrite_nil
  · rfl
  · rfl

theorem advance_wpos (p : BasePacket headSize) {n : Nat} (h : p.wpos + n ≤ p.storage.length) :
    (p.advance n).wpos = p.wpos + n := by
  rw [advance, dif_pos h]

theorem advance_advance (p : BasePacket headSize) {a b : Nat}
    (h : p.wpos + (a + b) ≤ p.storage.length) : (p.advance a).advance b = p.advance (a + b) := by
  have ha : p.advance a = { p with wpos := p.wpos + a, wpos_le := by omega } :=
    dif_pos (by omega)
  rw [ha, advance, dif_pos (show p.wpos + a + b ≤ p.storage.length by omega), advance, dif_pos h]
  ext1
  · rfl
  · rfl
  · exact Nat.add_assoc _ _ _

@[simp] theorem advance_storage (p : BasePacket headSize) (n : Nat) :
    (p.advance n).storage = p.storage := by
  unfold advance
  split <;> rfl

theorem put_length (p : BasePacket headSize) {pos : Nat} {src : List UInt8}
    (h : pos + src.length ≤ p.storage.length) : (p.put pos src).storage.length = p.storage.length :=
  overwrite_length h

@[simp] theorem append_wpos (p : BasePacket headSize) (src : List UInt8) :
    (p.append src).wpos = p.wpos + src.length := rfl

@[simp] theorem append_rpos (p : BasePacket headSize) (src : List UInt8) :
    (p.append src).rpos = p.rpos := rfl

@[simp] theorem append_nil (p : BasePacket headSize) : p.append [] = p := by
  have h := p.toByteBuffer.append_nil
  ext1 <;> simp only [append, h]

theorem append_append (p : BasePacket headSize) (x y : List UInt8) :
    (p.append x).append y = p.append (x ++ y) := by
  have h := p.toByteBuffer.append_append x y
  ext1 <;> simp only [append, h]

theorem append_getValue (p : BasePacket headSize) (src : List UInt8) {pos width : Nat}
    (h : pos + width ≤ p.wpos) : (p.append src).getValue pos width = p.getValue pos width :=
  p.toByteBuffer.append_getValue src h

theorem append_take_wpos (p : BasePacket headSize) (src : List UInt8) :
    (p.append src).storage.take (p.append src).wpos = p.storage.take p.wpos ++ src :=
  p.toByteBuffer.append_take_wpos src

theorem append_body (p : BasePacket headSize) (src : List UInt8) (h : headSize ≤ p.wpos) :
    (p.append src).body = p.body ++ src := by
  rw [body, append_take_wpos, List.drop_append_of_le_length, body]
  rw [List.length_take, Nat.min_eq_left p.wpos_le]
  exact h

theorem body_length (p : BasePacket headSize) : p.body.length = p.wpos - headSize := by
  rw [body, List.length_drop, List.length_take, Nat.min_eq_left p.wpos_le]

theorem body_eq_nil (p : BasePacket headSize) (h : p.wpos = headSize) : p.body = [] :=
  List.length_eq_zero_iff.mp (by rw [body_length, h, Nat.sub_self])

end BasePacket

end LuaServer
