import LuaServer.Common.ByteBuffer
import LuaServer.Reasoning.ObjectTable

/-!
# KcpSession — the sessions of a KCP server or client

A session is made by `createConnect`, owns a control block of `ikcp.cpp` and a timer, and is deleted
by `destroyConnect`.  The application works on sessions by address; a function that goes on with a
session that has been deleted ends the run, which is what `misused` records.

`ikcp.cpp` is a parameter.  What the callbacks of the application do is a parameter of each step.
-/

open Reasoning

namespace LuaServer

abbrev SESSION_PACKET_SIZE : Nat := 4 + 1

abbrev SETUP_SESSION_CODE : UInt8 := 110

abbrev UDP_PACK_HEAD_SIZE : Nat := 4

abbrev UdpPacket : Type := BasePacket UDP_PACK_HEAD_SIZE

namespace UdpPacket

def construct : UdpPacket := BasePacket.construct UDP_PACK_HEAD_SIZE []

def initSize (p : UdpPacket) (s : Nat) : UdpPacket :=
  if h : p.storage.length < s then
    { p with
      storage := resize p.storage s
      wpos_le := by rw [resize_length]; exact le_trans p.wpos_le h.le
      head_le := by rw [resize_length]; exact le_trans p.head_le h.le }
  else p

def getMsgType (p : UdpPacket) : Int := toInt32 (p.getValue 0 4)

def writeHead (p : UdpPacket) (msgtype : Int) : UdpPacket :=
  p.put 0 (leBytes 4 (toUint32 msgtype))

theorem le_initSize_length (p : UdpPacket) (s : Nat) : s ≤ (p.initSize s).storage.length := by
  rw [initSize]
  split
  · rw [resize_length]
  · omega

/-- `_createPacket(size)` with the bytes that `ikcp_recv` has put at `contents()`, and
`wpos(size)`. -/
def received (size : Nat) (contents : List UInt8) : UdpPacket :=
  ((construct.initSize size).put 0 contents).setWpos size
    (le_trans (le_initSize_length construct size) (le_overwrite_length _ _ _))

end UdpPacket

/-- The functions of `ikcp.cpp`, on what a control block holds besides `conv`, which `ikcp_create`
sets and nothing changes.  `update` and `flush` also give the datagrams handed to `output`, `recv`
also the bytes put into the buffer. -/
structure Ikcp where
  State : Type
  create : UInt32 → State
  -- with the arguments of `KcpEvent::onKcp`
  nodelay : State → State
  input : UInt32 → State → List UInt8 → State × Int
  update : UInt32 → State → UInt32 → State × List (List UInt8)
  peeksize : State → Int
  recv : State → Int → State × Int × List UInt8
  check : State → UInt32 → UInt32
  send : State → List UInt8 → State × Int
  flush : UInt32 → State → State × List (List UInt8)

structure Ikcpcb (k : Ikcp) where
  conv : UInt32
  state : k.State

/-- The bytes of a `sockaddr`. -/
abbrev Sockaddr : Type := List UInt8

abbrev SIZEOF_SOCKADDR : Nat := 16

/-- The address of a session. -/
abbrev KcpPtr : Type := Nat

structure KcpSession (k : Ikcp) where
  __m_kcp : Option (Ikcpcb k)
  __m_addr : Sockaddr
  -- the period of the timer while it runs
  __m_timer : Option UInt32
  __m_nTimeout : UInt32
  __m_nTalkTime : UInt32
  __m_nUpdateTime : UInt32

/-- What a callback of the application does with the session it is given: it sends messages, with
their types, and may close the session at the end. -/
structure KcpCallback where
  sendMsg : List (Int × List UInt8)
  closeSession : Bool

/-- What one step takes from its surroundings: the readings of `XTime::iclock()`, in `update` or
`updateKcp` and in `start` or `_onMsg`, and what the callbacks do. -/
structure KcpEvents where
  currt : UInt32
  talkTime : UInt32
  -- `onAccept` on the server, `onConnect` on the client
  onOpen : KcpCallback
  onMsg : KcpCallback
  onUdpTimeout : KcpCallback

/-- A call of the event handler. -/
inductive KcpCall
  | onAccept (conn : KcpPtr)
  | onConnect (conn : KcpPtr)
  | onClose (conn : KcpPtr)
  | onMsg (conn : KcpPtr) (msgtype : Int) (pack : UdpPacket)
  | onUdpTimeout (conn : KcpPtr)

structure KcpDatagram where
  addr : Sockaddr
  bytes : List UInt8

/-- A server or a client, the sessions on its heap, and what it has done so far. -/
structure KcpHost (k : Ikcp) where
  __m_mapSessions : UInt32 → Option KcpPtr
  -- the counter of the process, which only a server uses
  gSessionid : UInt32
  heap : KcpPtr → Option (KcpSession k)
  -- the calls of `createConnect` and of `destroyConnect`
  created : Nat
  destroyed : List KcpPtr
  -- each new session with its id, and the ids of the other sessions alive then
  openings : List (Opening UInt32)
  sent : List KcpDatagram
  calls : List KcpCall
  -- a session has been used after `destroyConnect`, or a null control block by `ikcp.cpp`
  misused : Bool

/-- A function on a host; an error is the state in which a deleted session is used. -/
abbrev KcpRun (k : Ikcp) (α : Type) : Type := Except (KcpHost k) α

namespace KcpSession

variable {k : Ikcp}

/-- The constructor, with the timeout of `KcpEvent::createConnect`. -/
def construct : KcpSession k := ⟨none, [], none, 30 * 1000, 0, 0⟩

def getSessionId (s : KcpSession k) : UInt32 :=
  match s.__m_kcp with
  | some kcp => kcp.conv
  | none => 0

end KcpSession

namespace KcpHost

variable {k : Ikcp}

def fresh : KcpHost k := ⟨fun _ => none, 0, fun _ => none, 0, [], [], [], [], false⟩

/-! ## 1. Sessions on the heap -/

/-- A field or a method of the session is used. -/
def use (h : KcpHost k) (p : KcpPtr) : KcpRun k (KcpSession k) :=
  match h.heap p with
  | some s => pure s
  | none => throw { h with misused := true }

/-- The control block of the session is passed to an `ikcp` function. -/
def useKcp (h : KcpHost k) (p : KcpPtr) : KcpRun k (KcpSession k × Ikcpcb k) := do
  let s ← h.use p
  match s.__m_kcp with
  | some kcp => pure (s, kcp)
  | none => throw { h with misused := true }

def setSession (h : KcpHost k) (p : KcpPtr) (s : KcpSession k) : KcpHost k :=
  { h with heap := Function.update h.heap p (some s) }

/-- The control block has a new state and has called `__kcpOutCallback`. -/
def setKcp (h : KcpHost k) (p : KcpPtr) (s : KcpSession k) (conv : UInt32) (state : k.State)
    (output : List (List UInt8)) : KcpHost k :=
  { h.setSession p { s with __m_kcp := some ⟨conv, state⟩ } with
    sent := h.sent ++ output.map fun buf => ⟨s.__m_addr, buf⟩ }

def call (h : KcpHost k) (c : KcpCall) : KcpHost k := { h with calls := h.calls ++ [c] }

/-- `release`, for a session whose entry `id` leaves the table as well: `destory`, `over`, `onClose`
and `destroyConnect`. -/
def release (h : KcpHost k) (p : KcpPtr) : KcpRun k (KcpHost k) := do
  let s ← h.use p
  let h := h.setSession p { s with __m_kcp := none, __m_timer := none }
  let h := h.call (.onClose p)
  pure { h with heap := Function.update h.heap p none, destroyed := h.destroyed ++ [p] }

def erase (h : KcpHost k) (id : UInt32) : KcpHost k :=
  { h with __m_mapSessions := Function.update h.__m_mapSessions id none }

/-- `closeSession` of the server and of the client. -/
def closeSession (h : KcpHost k) (p : KcpPtr) : KcpRun k (KcpHost k) := do
  let s ← h.use p
  if (h.__m_mapSessions s.getSessionId).isSome then (h.erase s.getSessionId).release p
  else pure h

/-- `KcpSession::sendMsg`. -/
def sendMsg (h : KcpHost k) (p : KcpPtr) (msgtype : Int) (msg : List UInt8) :
    KcpRun k (KcpHost k) := do
  let (s, kcp) ← h.useKcp p
  let pack := UdpPacket.writeHead (UdpPacket.construct.append msg) msgtype
  let state := (k.send kcp.state pack.sendData.bytes).1
  -- flushKcp
  let r := k.flush kcp.conv state
  pure (h.setKcp p s kcp.conv r.1 r.2)

def callback (h : KcpHost k) (p : KcpPtr) (c : KcpCallback) : KcpRun k (KcpHost k) := do
  let h ← c.sendMsg.foldlM (fun h m => h.sendMsg p m.1 m.2) h
  if c.closeSession then h.closeSession p else pure h

/-- `KcpSession::_onMsg`. -/
def _onMsg (h : KcpHost k) (p : KcpPtr) (packet : UdpPacket) (e : KcpEvents) :
    KcpRun k (KcpHost k) := do
  let s ← h.use p
  let h := h.setSession p { s with __m_nTalkTime := e.talkTime }
  (h.call (.onMsg p packet.getMsgType packet)).callback p e.onMsg

/-- The branch of `KcpSessionBase::update` for a message of `peeksize` bytes. -/
def receiveMsg (h : KcpHost k) (p : KcpPtr) (peeksize : Int) (e : KcpEvents) :
    KcpRun k (KcpHost k) := do
  let (s, kcp) ← h.useKcp p
  let rcv := k.recv kcp.state peeksize
  let h := h.setKcp p s kcp.conv rcv.1 []
  let h ←
    if 0 < rcv.2.1 then h._onMsg p (UdpPacket.received peeksize.toNat rcv.2.2) e
    else pure h
  -- `_recyclePacket` is a virtual method of the session
  let _ ← h.use p
  pure h

/-- `KcpSessionBase::update`. -/
def updateBase (h : KcpHost k) (p : KcpPtr) (millisecond : UInt32) (e : KcpEvents) :
    KcpRun k (KcpHost k × UInt32) := do
  let s ← h.use p
  match s.__m_kcp with
  | none => pure (h, 0)
  | some kcp =>
    let r := k.update kcp.conv kcp.state millisecond
    let h := h.setKcp p s kcp.conv r.1 r.2
    let peeksize := k.peeksize r.1
    let h ← if 0 < peeksize then h.receiveMsg p peeksize e else pure h
    let (_, kcp) ← h.useKcp p
    pure (h, k.check kcp.state millisecond)

def setUpdateTime (h : KcpHost k) (p : KcpPtr) (time : UInt32) : KcpRun k (KcpHost k) := do
  let s ← h.use p
  pure (h.setSession p { s with __m_nUpdateTime := time })

/-- `KcpSession::updateKcp`. -/
def updateKcp (h : KcpHost k) (p : KcpPtr) (e : KcpEvents) : KcpRun k (KcpHost k) := do
  let (h, time) ← h.updateBase p e.currt e
  h.setUpdateTime p time

/-- `KcpSession::update`, which the timer calls. -/
def update (h : KcpHost k) (p : KcpPtr) (e : KcpEvents) : KcpRun k (KcpHost k) := do
  let s ← h.use p
  let h ← if s.__m_nUpdateTime ≤ e.currt then h.updateKcp p e else pure h
  let s ← h.use p
  if s.__m_nTalkTime + s.__m_nTimeout < e.currt then
    (h.call (.onUdpTimeout p)).callback p e.onUdpTimeout
  else pure h

/-- `KcpSessionBase::recv`. -/
def recv (h : KcpHost k) (p : KcpPtr) (buf : List UInt8) : KcpRun k (KcpHost k × Int) := do
  let (s, kcp) ← h.useKcp p
  let r := k.input kcp.conv kcp.state buf
  pure (h.setKcp p s kcp.conv r.1 [], r.2)

end KcpHost

/-! ## 2. Datagrams -/

/-- What `on_read` hands on: the receive buffer with `len` bytes of the datagram at its front.  The
first five bytes of the buffer are read whatever `len` is. -/
structure Received where
  buff : List UInt8
  len : Int
  head_le : 5 ≤ buff.length
  len_le : len ≤ buff.length

namespace Received

/-- `ikcp_getconv`. -/
def conv (r : Received) : UInt32 := UInt32.ofNat (leNat (r.buff.take 4))

def code (r : Received) : UInt8 := r.buff.getD 4 0

def data (r : Received) : List UInt8 := r.buff.take r.len.toNat

end Received

namespace KcpHost

variable {k : Ikcp}

/-- The datagrams that set up a session, with the id in front. -/
def setupDatagram (id : UInt32) : List UInt8 := leBytes 4 id.toNat ++ [SETUP_SESSION_CODE]

/-- `createConnect`, `init`, `onKcp`, `start` and the entry in the table. -/
def openSession (h : KcpHost k) (id : UInt32) (addr : Sockaddr) (e : KcpEvents) : KcpHost k :=
  let session : KcpSession k :=
    { (KcpSession.construct : KcpSession k) with
      __m_kcp := some ⟨id, k.nodelay (k.create id)⟩
      __m_addr := addr.take SIZEOF_SOCKADDR
      __m_nTalkTime := e.talkTime
      __m_timer := some 10 }
  { h.setSession h.created session with
    created := h.created + 1
    __m_mapSessions := Function.update h.__m_mapSessions id (some h.created)
    openings := h.openings ++ [⟨h.created, id, (List.range h.created).filterMap fun p =>
      (h.heap p).map KcpSession.getSessionId⟩] }

/-- The part of `onMessage` for datagrams of a session, the same on both sides. -/
def onSessionMessage (h : KcpHost k) (r : Received) (e : KcpEvents) : KcpRun k (KcpHost k) :=
  match h.__m_mapSessions r.conv with
  | none => pure h
  | some p => do
    let (h, error) ← h.recv p r.data
    if error = 0 then h.updateKcp p e
    else
      let h ← h.release p
      pure (h.erase r.conv)

end KcpHost

end LuaServer
