import LuaServer.Common.PacketGetters
import LuaServer.Network.KcpCallbacks

/-!
# KcpPacket — the packets that an update hands to `onMsg`

`KcpSessionBase::update` makes a packet for the message that `ikcp_peeksize` announces, lets
`ikcp_recv` write into its storage and sets the write cursor to the size of the message.  The read
cursor stands behind the type field from the start, whether the message reaches that far or not.
-/

open Reasoning

namespace LuaServer

namespace UdpPacket

/-! ## 1. The packet of a message -/

/-- The cursors stand in order inside the storage, and what can be asked of the packet is the
message behind its type field; no length is negative. -/
structure WellFormed (msg : List UInt8) (p : UdpPacket) : Prop where
  rpos_le : p.rpos ≤ p.wpos
  wpos_le : p.wpos ≤ p.storage.length
  readData_eq : 4 ≤ msg.length →
    p.readData = ⟨4, msg.length - 4⟩ ∧ p.view p.readData = msg.drop 4
  activeSize_nonneg : msg.length < 4 → 0 ≤ p.activeSize
  getBodySize_nonneg : msg.length < 4 → 0 ≤ p.getBodySize

variable {msg : List UInt8}

theorem received_rpos (msg : List UInt8) : (received msg.length msg).rpos = 4 := by
  change (initSize construct msg.length).rpos = 4
  unfold initSize
  split <;> rfl

theorem received_storage (h : 4 ≤ msg.length) : (received msg.length msg).storage = msg := by
  have hsize : (initSize construct msg.length).storage.length = msg.length := by
    unfold initSize
    by_cases hlt : construct.storage.length < msg.length
    · rw [dif_pos hlt]
      exact resize_length _ _
    · rw [dif_neg hlt]
      change ¬ 4 < msg.length at hlt
      change 4 = msg.length
      omega
  change overwrite (initSize construct msg.length).storage 0 msg = msg
  rw [overwrite_zero, List.drop_of_length_le hsize.le, List.append_nil]

/-- The packet of a message is well formed exactly when the message has a type field. -/
theorem received_wellFormed_iff (hint : msg.length < 2 ^ 31) :
    WellFormed msg (received msg.length msg) ↔ 4 ≤ msg.length := by
  have hrpos := received_rpos msg
  have hwpos : (received msg.length msg).wpos = msg.length := rfl
  constructor
  · intro h
    have hle := h.rpos_le
    omega
  · intro h
    have hstorage := received_storage h
    have hle : (received msg.length msg).rpos ≤ (received msg.length msg).wpos := by omega
    refine ⟨hle, (received msg.length msg).wpos_le, ?_, by omega, by omega⟩
    intro _
    have hdata := BasePacket.readData_eq hle (by omega)
    rw [hrpos, hwpos] at hdata
    refine ⟨hdata, ?_⟩
    rw [hdata, BasePacket.view, hstorage]
    apply List.take_of_length_le
    rw [List.length_drop]

end UdpPacket

namespace KcpHost

variable {k : Ikcp} {h : KcpHost k} {p : KcpPtr} {s : KcpSession k} {calls : List KcpCall}

/-! ## 2. Calls of the event handler are only added -/

/-- `calls` are the first calls of the event handler made when `r` ends. -/
def Logs (calls : List KcpCall) (r : KcpRun k (KcpHost k)) : Prop := calls <+: (after r).calls

theorem Logs.bind {r : KcpRun k (KcpHost k)} {f : KcpHost k → KcpRun k (KcpHost k)}
    (hr : Logs calls r) (hf : ∀ h, calls <+: h.calls → Logs calls (f h)) :
    Logs calls (r >>= f) := by
  cases r with
  | ok h => exact hf h hr
  | error h => exact hr

/-- A session that is gone ends the run; the calls stay. -/
theorem Logs.use {f : KcpSession k → KcpRun k (KcpHost k)} (hcalls : calls <+: h.calls)
    (hf : ∀ s, Logs calls (f s)) : Logs calls (h.use p >>= f) := by
  unfold KcpHost.use
  cases h.heap p with
  | some s => exact hf s
  | none => exact hcalls

theorem Logs.useKcp {f : KcpSession k × Ikcpcb k → KcpRun k (KcpHost k)}
    (hcalls : calls <+: h.calls) (hf : ∀ r, Logs calls (f r)) :
    Logs calls (h.useKcp p >>= f) := by
  unfold KcpHost.useKcp
  rw [bind_assoc]
  apply Logs.use hcalls
  intro s
  cases s.__m_kcp with
  | some kcp => exact hf (s, kcp)
  | none => exact hcalls

theorem sendMsg_logs (hcalls : calls <+: h.calls) (msgtype : Int) (msg : List UInt8) :
    Logs calls (h.sendMsg p msgtype msg) :=
  Logs.useKcp hcalls fun _ => hcalls

theorem closeSession_logs (hcalls : calls <+: h.calls) : Logs calls (h.closeSession p) := by
  apply Logs.use hcalls
  intro s
  by_cases hentry : (h.__m_mapSessions s.getSessionId).isSome = true
  · rw [if_pos hentry]
    apply Logs.use (h := h.erase s.getSessionId) hcalls
    intro s'
    exact hcalls.trans (List.prefix_append _ _)
  · rw [if_neg hentry]
    exact hcalls

theorem callback_logs (hcalls : calls <+: h.calls) (c : KcpCallback) :
    Logs calls (h.callback p c) := by
  apply Logs.bind
  · -- the messages of the callback, one after another
    induction c.sendMsg generalizing h with
    | nil => exact hcalls
    | cons m msgs ih =>
      rw [List.foldlM_cons]
      exact (sendMsg_logs hcalls m.1 m.2).bind fun _ h => ih h
  · intro h' hcalls'
    by_cases hclose : c.closeSession = true
    · rw [if_pos hclose]
      exact closeSession_logs hcalls'
    · rw [if_neg hclose]
      exact hcalls'

/-! ## 3. What an update hands over -/

theorem onMsg_logs (hs : h.heap p = some s) (packet : UdpPacket) (e : KcpEvents) :
    Logs (h.calls ++ [.onMsg p packet.getMsgType packet]) (h._onMsg p packet e) := by
  rw [_onMsg, use_eq hs]
  apply callback_logs
  exact List.prefix_rfl

/-- The message that `ikcp_recv` returns goes to `onMsg` in a packet that is made for its size. -/
theorem receiveMsg_logs (hs : h.heap p = some s) {kcp : Ikcpcb k} (hkcp : s.__m_kcp = some kcp)
    {msg : List UInt8} (hrecv : (k.recv kcp.state msg.length).2 = (↑msg.length, msg))
    (hpos : 1 ≤ msg.length) (e : KcpEvents) :
    Logs (h.calls ++ [.onMsg p (UdpPacket.received msg.length msg).getMsgType
      (UdpPacket.received msg.length msg)]) (h.receiveMsg p msg.length e) := by
  have hreturned : 0 < (msg.length : Int) := Int.natCast_pos.mpr hpos
  have hrun : h.receiveMsg p msg.length e =
      (h.setKcp p s kcp.conv (k.recv kcp.state msg.length).1 [])._onMsg p
        (UdpPacket.received msg.length msg) e >>= fun h => h.use p >>= fun _ => pure h := by
    rw [receiveMsg, useKcp_eq hs hkcp]
    simp only [bind, Except.bind, hrecv, if_pos hreturned, Int.toNat_natCast]
  rw [hrun]
  apply Logs.bind
  · exact onMsg_logs (h := h.setKcp p s kcp.conv _ []) (Function.update_self _ _ _) _ e
  · intro h' hcalls
    exact Logs.use hcalls fun _ => hcalls

theorem updateBase_logs (hs : h.heap p = some s) {kcp : Ikcpcb k} (hkcp : s.__m_kcp = some kcp)
    (millisecond : UInt32) {msg : List UInt8}
    (hpeek : k.peeksize (k.update kcp.conv kcp.state millisecond).1 = msg.length)
    (hrecv : (k.recv (k.update kcp.conv kcp.state millisecond).1 msg.length).2 =
      (↑msg.length, msg)) (hpos : 1 ≤ msg.length) (e : KcpEvents) :
    Logs (h.calls ++ [.onMsg p (UdpPacket.received msg.length msg).getMsgType
      (UdpPacket.received msg.length msg)]) (Prod.fst <$> h.updateBase p millisecond e) := by
  obtain ⟨r, hr⟩ : ∃ r, k.update kcp.conv kcp.state millisecond = r := ⟨_, rfl⟩
  rw [hr] at hpeek hrecv
  have hpeeked : 0 < (msg.length : Int) := Int.natCast_pos.mpr hpos
  have hrun : Prod.fst <$> h.updateBase p millisecond e =
      (h.setKcp p s kcp.conv r.1 r.2).receiveMsg p msg.length e >>= fun h =>
        h.useKcp p >>= fun _ => pure h := by
    rw [updateBase, use_eq hs]
    simp only [bind, Except.bind, hkcp, hr, hpeek, if_pos hpeeked]
    cases (h.setKcp p s kcp.conv r.1 r.2).receiveMsg p msg.length e with
    | error h' => rfl
    | ok h' =>
      cases hused : h'.useKcp p with
      | error h'' =>
        simp only [hused]
        rfl
      | ok r' =>
        simp only [hused]
        rfl
  rw [hrun]
  apply Logs.bind
  · exact receiveMsg_logs (h := h.setKcp p s kcp.conv r.1 r.2) (Function.update_self _ _ _) rfl
      hrecv
      hpos e
  · intro h' hcalls
    exact Logs.useKcp hcalls fun _ => hcalls

/-- An update hands the message that `ikcp` delivers to `onMsg`, in a packet that is well formed
exactly when the message has at least four bytes. -/
theorem update_packet_wellFormed_iff (hs : h.heap p = some s) {kcp : Ikcpcb k}
    (hkcp : s.__m_kcp = some kcp) (millisecond : UInt32) (e : KcpEvents) {msg : List UInt8}
    (hpeek : k.peeksize (k.update kcp.conv kcp.state millisecond).1 = msg.length)
    (hrecv : (k.recv (k.update kcp.conv kcp.state millisecond).1 msg.length).2 =
      (↑msg.length, msg)) (hpos : 1 ≤ msg.length) (hint : msg.length < 2 ^ 31) :
    ∃ packet : UdpPacket,
      Logs (h.calls ++ [.onMsg p packet.getMsgType packet])
        (Prod.fst <$> h.updateBase p millisecond e) ∧
      (UdpPacket.WellFormed msg packet ↔ 4 ≤ msg.length) :=
  ⟨UdpPacket.received msg.length msg, updateBase_logs hs hkcp millisecond hpeek hrecv hpos e,
    UdpPacket.received_wellFormed_iff hint⟩

/-- Callbacks that do nothing. -/
def idleEvents : KcpEvents := ⟨0, 0, ⟨[], false⟩, ⟨[], false⟩, ⟨[], false⟩⟩

/-- A session in which the message "hello" waits. -/
def helloSession : KcpSession inOrder :=
  { (KcpSession.construct : KcpSession inOrder) with
    __m_kcp := some ⟨1, ⟨[[104, 101, 108, 108, 111]], 1, []⟩⟩ }

def helloWaits : KcpHost inOrder :=
  (fresh.openSession 1 [] idleEvents).setSession 0 helloSession

theorem update_packet_wellFormed_iff_hello :
    ∃ packet : UdpPacket,
      Logs (helloWaits.calls ++ [.onMsg 0 packet.getMsgType packet])
        (Prod.fst <$> helloWaits.updateBase 0 10 idleEvents) ∧
      (UdpPacket.WellFormed [104, 101, 108, 108, 111] packet ↔ 4 ≤ 5) :=
  update_packet_wellFormed_iff (s := helloSession) rfl rfl 10 idleEvents rfl rfl (by decide)
    (by decide)

/-- A push segment of session 1 with a message of one byte. -/
def shortSegment : Received :=
  ⟨[1, 0, 0, 0, 81, 0, 128, 0, 0, 0, 0, 0, 0, 0, 0, 0, 0, 0, 0, 0, 1, 0, 0, 0, 104], 25,
    by decide, by decide⟩

/-- The packet of a message of one byte: the read cursor stands behind the write cursor, and
`activeSize()` and `getBodySize()` are negative. -/
theorem short_message_packet :
    ∃ h, run (step .server) (fresh : KcpHost inOrder)
        [.read [] setupRequest idleEvents, .read [] shortSegment idleEvents] = some h ∧
      h.calls = [.onAccept 0, .onMsg 0 (UdpPacket.received 1 [104]).getMsgType
        (UdpPacket.received 1 [104])] ∧
      ¬ UdpPacket.WellFormed [104] (UdpPacket.received 1 [104]) ∧
      (UdpPacket.received 1 [104]).activeSize = -3 ∧
      (UdpPacket.received 1 [104]).getBodySize = -3 ∧
      (UdpPacket.received 1 [104]).readData.len = 2 ^ 64 - 3 := by
  refine ⟨_, rfl, rfl, ?_, by decide, by decide, by decide⟩
  intro hwell
  exact absurd hwell.rpos_le (by decide)

end KcpHost

end LuaServer
