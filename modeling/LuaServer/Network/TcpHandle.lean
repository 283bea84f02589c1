import LuaServer.Network.TcpSocket

/-!
# TcpHandle — a socket and its libuv handle

`close` and a failed read call `uv_close`.  A handle that is closing is not read any more and
refuses `uv_write`; libuv completes the request that is outstanding and then calls `on_uv_close`,
once.  A second `uv_close` on the handle aborts the process.
-/

open Reasoning

namespace LuaServer

structure TcpHandle where
  socket : TcpSocket
  -- how often `uv_close` has been called
  closes : Nat
  -- `on_uv_close` has been called
  closed : Bool
deriving DecidableEq

namespace TcpHandle

def fresh : TcpHandle := ⟨TcpSocket.fresh, 0, false⟩

def isClosing (h : TcpHandle) : Bool := decide (0 < h.closes)

def isAborted (h : TcpHandle) : Bool := decide (1 < h.closes)

/-- `TcpSocketBase::close`, and what `echo_read` does with `nread < 0`. -/
def close (h : TcpHandle) : TcpHandle := { h with closes := h.closes + 1 }

/-- `TcpSocketBase::write`. -/
def uvWrite (h : TcpHandle) (bufs : List UvBuf) : TcpHandle :=
  if h.isClosing then h else { h with socket := h.socket.uvWrite bufs }

def sendTopMsg (h : TcpHandle) : TcpHandle :=
  let r := TcpSocket.collect h.socket.mSendPackets 0 h.socket.mSending
  let h' := { h with socket := { h.socket with mSending := r.2 } }
  if 0 < r.1 then h'.uvWrite r.2 else h'

/-- `TcpSocket::write` of a packet that has just been allocated. -/
def write (h : TcpHandle) (data : SendData) : TcpHandle :=
  let h' := { h with socket := h.socket.pushed data }
  if h'.socket.isSending = false then h'.sendTopMsg else h'

/-- `TcpSocket::on_writecomplete`. -/
def onWritecomplete (h : TcpHandle) : TcpHandle :=
  let s := TcpSocket.recycleFront h.socket.mSending.length h.socket
  sendTopMsg { h with socket := { s with mSending := [] } }

/-- The oldest request is done, successfully or not: what `echo_write` finds. -/
def completed (h : TcpHandle) : TcpHandle :=
  { h with socket := { h.socket with outstanding := h.socket.outstanding.tail } }

/-- libuv calls `on_uv_close` when nothing is outstanding any more. -/
def isCloseDue (h : TcpHandle) : Bool :=
  h.isClosing && !h.closed && h.socket.outstanding.isEmpty

theorem isClosing_eq_false_iff {h : TcpHandle} : h.isClosing = false ↔ h.closes = 0 := by
  rw [isClosing, decide_eq_false_iff_not, Nat.not_lt, Nat.le_zero]

theorem isClosing_iff {h : TcpHandle} : h.isClosing = true ↔ 0 < h.closes := by
  rw [isClosing, decide_eq_true_eq]

theorem isCloseDue_iff {h : TcpHandle} :
    h.isCloseDue = true ↔ 0 < h.closes ∧ h.closed = false ∧ h.socket.outstanding = [] := by
  simp [isCloseDue, isClosing_iff, and_assoc]

@[simp] theorem sendTopMsg_closes (h : TcpHandle) : h.sendTopMsg.closes = h.closes := by
  simp only [sendTopMsg, uvWrite]
  split
  · split <;> rfl
  · rfl

@[simp] theorem sendTopMsg_closed (h : TcpHandle) : h.sendTopMsg.closed = h.closed := by
  simp only [sendTopMsg, uvWrite]
  split
  · split <;> rfl
  · rfl

@[simp] theorem write_closes (h : TcpHandle) (data : SendData) :
    (h.write data).closes = h.closes := by
  simp only [write]
  split
  · exact sendTopMsg_closes _
  · rfl

@[simp] theorem write_closed (h : TcpHandle) (data : SendData) :
    (h.write data).closed = h.closed := by
  simp only [write]
  split
  · exact sendTopMsg_closed _
  · rfl

@[simp] theorem onWritecomplete_closes (h : TcpHandle) :
    h.onWritecomplete.closes = h.closes := sendTopMsg_closes _

@[simp] theorem onWritecomplete_closed (h : TcpHandle) :
    h.onWritecomplete.closed = h.closed := sendTopMsg_closed _

/-! ## An open handle works on its socket -/

theorem uvWrite_open {h : TcpHandle} (hopen : h.closes = 0) (bufs : List UvBuf) :
    h.uvWrite bufs = { h with socket := h.socket.uvWrite bufs } := by
  rw [uvWrite, if_neg]
  rw [Bool.not_eq_true]
  exact isClosing_eq_false_iff.mpr hopen

theorem sendTopMsg_open {h : TcpHandle} (hopen : h.closes = 0) :
    h.sendTopMsg = { h with socket := h.socket.sendTopMsg } := by
  simp only [sendTopMsg, TcpSocket.sendTopMsg]
  split
  · apply uvWrite_open
    exact hopen
  · rfl

theorem write_open {h : TcpHandle} (hopen : h.closes = 0) (data : SendData) :
    h.write data = { h with socket := h.socket.write data } := by
  obtain ⟨s, hs⟩ : ∃ s, h.socket.pushed data = s := ⟨_, rfl⟩
  have hwrite : h.socket.write data = if s.isSending = false then s.sendTopMsg else s := hs ▸ rfl
  rw [write, hwrite, hs]
  simp only
  split
  · apply sendTopMsg_open
    exact hopen
  · rfl

theorem onWritecomplete_open {h : TcpHandle} (hopen : h.closes = 0) :
    h.onWritecomplete = { h with socket := h.socket.onWritecomplete } := by
  apply sendTopMsg_open
  exact hopen

theorem write_inv {h : TcpHandle} (hopen : h.closes = 0) (hs : h.socket.Inv) (data : SendData) :
    (h.write data).socket.Inv := by
  rw [write_open hopen]
  exact TcpSocket.step_inv (a := .write data) hs rfl

theorem completed_onWritecomplete_inv {h : TcpHandle} (hopen : h.closes = 0) (hs : h.socket.Inv)
    (hout : h.socket.outstanding ≠ []) : h.completed.onWritecomplete.socket.Inv := by
  have hopen' : h.completed.closes = 0 := hopen
  rw [onWritecomplete_open hopen']
  apply TcpSocket.step_inv (a := .complete) hs
  obtain ⟨request, rest, hrest⟩ := List.exists_cons_of_ne_nil hout
  rw [TcpSocket.step, hrest, completed, hrest]
  rfl

end TcpHandle

end LuaServer
