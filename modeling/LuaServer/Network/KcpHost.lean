import LuaServer.Network.KcpSession
import LuaServer.Reasoning.Transition

/-!
# KcpHost — the steps of a KCP server or client

Datagrams, timers and calls of the application change the table and the heap together.  On the
objects of a host each step is a `create`, a `close`, both or neither; and a step uses a session
after its deletion exactly when `onMsg` closes the session that `update` is working on.
-/

open Reasoning

namespace LuaServer

/-! ## 1. The steps -/

namespace KcpServer

variable {k : Ikcp}

def onMessage (h : KcpHost k) (addr : Sockaddr) (r : Received) (e : KcpEvents) :
    KcpRun k (KcpHost k) :=
  if r.len ≤ 0 then pure h
  else if r.len = SESSION_PACKET_SIZE ∧ r.conv = 0 ∧ r.code = SETUP_SESSION_CODE then
    let id := h.gSessionid + 1
    let session := h.created
    let h := ({ h with gSessionid := id } : KcpHost k).openSession id addr e
    -- send to client
    let h : KcpHost k := { h with sent := h.sent ++ [⟨addr, KcpHost.setupDatagram id⟩] }
    (h.call (.onAccept session)).callback session e.onOpen
  else h.onSessionMessage r e

end KcpServer

namespace KcpClient

variable {k : Ikcp}

/-- The datagram that asks the server for a session. -/
def createSession (h : KcpHost k) (server : Sockaddr) : KcpHost k :=
  { h with sent := h.sent ++ [⟨server, KcpHost.setupDatagram 0⟩] }

def onMessage (h : KcpHost k) (addr : Sockaddr) (r : Received) (e : KcpEvents) :
    KcpRun k (KcpHost k) :=
  if r.len = SESSION_PACKET_SIZE ∧ 0 < r.conv ∧ r.code = SETUP_SESSION_CODE then
    let session := h.created
    let h := h.openSession r.conv addr e
    (h.call (.onConnect session)).callback session e.onOpen
  else h.onSessionMessage r e

end KcpClient

inductive KcpRole
  | server
  | client
deriving DecidableEq

/-- `on_read`: the server's passes on whatever it gets, the client's needs at least one byte. -/
def KcpRole.onRead {k : Ikcp} (role : KcpRole) (h : KcpHost k) (addr : Sockaddr) (r : Received)
    (e : KcpEvents) : KcpRun k (KcpHost k) :=
  match role with
  | .server => KcpServer.onMessage h addr r e
  | .client => if r.len ≤ 0 then pure h else KcpClient.onMessage h addr r e

inductive KcpAction
  | read (addr : Sockaddr) (r : Received) (e : KcpEvents)
  -- the timer of a session
  | timer (session : KcpPtr) (e : KcpEvents)
  -- calls of the application, outside the callbacks
  | closeSession (session : KcpPtr)
  | sendMsg (session : KcpPtr) (msgtype : Int) (msg : List UInt8)
  | createSession (server : Sockaddr)

namespace KcpHost

variable {k : Ikcp}

def isTimerRunning (h : KcpHost k) (p : KcpPtr) : Bool :=
  match h.heap p with
  | some s => s.__m_timer.isSome
  | none => false

/-- What an action calls, if it is possible: only the timer of a session that runs goes off, and
the application calls on sessions that are alive. -/
def act (role : KcpRole) (h : KcpHost k) : KcpAction → Option (KcpRun k (KcpHost k))
  | .read addr r e => some (role.onRead h addr r e)
  | .timer p e => if h.isTimerRunning p then some (h.update p e) else none
  | .closeSession p => if (h.heap p).isSome then some (h.closeSession p) else none
  | .sendMsg p msgtype msg => if (h.heap p).isSome then some (h.sendMsg p msgtype msg) else none
  | .createSession server =>
    match role with
    | .server => none
    | .client => some (pure (KcpClient.createSession h server))

/-- The state in which a call ends. -/
def after : KcpRun k (KcpHost k) → KcpHost k
  | .ok h => h
  | .error h => h

/-- A run ends with the use of a deleted session. -/
def step (role : KcpRole) (h : KcpHost k) (a : KcpAction) : Option (KcpHost k) :=
  if h.misused then none else (h.act role a).map after

/-! ## 2. The host as a table of objects -/

def objects (h : KcpHost k) : ObjectTable UInt32 where
  table := h.__m_mapSessions
  key p := (h.heap p).map KcpSession.getSessionId
  created := h.created
  destroyed := h.destroyed
  openings := h.openings

/-- The sessions on the heap have their control blocks. -/
def Live (h : KcpHost k) : Prop := ∀ p s, h.heap p = some s → s.__m_kcp ≠ none

/-- The objects have become `t`; all else that a later step depends on is as before. -/
structure Becomes (h : KcpHost k) (t : ObjectTable UInt32) (h' : KcpHost k) : Prop where
  objects : h'.objects = t
  gSessionid : h'.gSessionid = h.gSessionid
  misused : h'.misused = h.misused
  live : h'.Live

variable {h h' h'' : KcpHost k} {t u : ObjectTable UInt32} {p : KcpPtr} {s : KcpSession k}

theorem Becomes.refl (hl : h.Live) : Becomes h h.objects h := ⟨rfl, rfl, rfl, hl⟩

theorem Becomes.trans (h₁ : Becomes h t h') (h₂ : Becomes h' u h'') : Becomes h u h'' :=
  ⟨h₂.objects, h₂.gSessionid.trans h₁.gSessionid, h₂.misused.trans h₁.misused, h₂.live⟩

/-- A session is still on the heap, under the same id. -/
theorem Becomes.heap (hb : Becomes h h.objects h') (hs : h.heap p = some s) :
    ∃ s', h'.heap p = some s' ∧ s'.getSessionId = s.getSessionId := by
  have hkey : (h'.heap p).map KcpSession.getSessionId = (h.heap p).map KcpSession.getSessionId :=
    congrFun (congrArg ObjectTable.key hb.objects) p
  rw [hs] at hkey
  obtain ⟨s', hs', hid⟩ := Option.map_eq_some_iff.mp hkey
  exact ⟨s', hs', hid⟩

theorem Live.kcp (hl : h.Live) (hs : h.heap p = some s) :
    ∃ kcp, s.__m_kcp = some kcp ∧ s.getSessionId = kcp.conv := by
  obtain ⟨kcp, hkcp⟩ := Option.ne_none_iff_exists'.mp (hl p s hs)
  exact ⟨kcp, hkcp, by rw [KcpSession.getSessionId, hkcp]⟩

theorem use_eq (hs : h.heap p = some s) : h.use p = .ok s := by
  rw [use, hs]
  rfl

theorem useKcp_eq (hs : h.heap p = some s) {kcp : Ikcpcb k} (hkcp : s.__m_kcp = some kcp) :
    h.useKcp p = .ok (s, kcp) := by
  rw [useKcp, use_eq hs]
  simp only [bind, Except.bind, hkcp]
  rfl

theorem setSession_becomes (hl : h.Live) (hs : h.heap p = some s) (s' : KcpSession k)
    (hid : s'.getSessionId = s.getSessionId) (hkcp : s'.__m_kcp ≠ none) :
    Becomes h h.objects (h.setSession p s') := by
  refine ⟨?_, rfl, rfl, ?_⟩
  · simp only [objects, setSession]
    congr 1
    funext q
    rw [Function.update_apply]
    split
    · subst q
      rw [hs, Option.map_some, Option.map_some, hid]
    · rfl
  · intro q s'' hq
    simp only [setSession, Function.update_apply] at hq
    split at hq
    · cases hq
      exact hkcp
    · exact hl q s'' hq

theorem setKcp_becomes (hl : h.Live) (hs : h.heap p = some s) {kcp : Ikcpcb k}
    (hkcp : s.__m_kcp = some kcp) (state : k.State) (output : List (List UInt8)) :
    Becomes h h.objects (h.setKcp p s kcp.conv state output) := by
  have hset := setSession_becomes hl hs { s with __m_kcp := some ⟨kcp.conv, state⟩ }
    (by simp only [KcpSession.getSessionId, hkcp]) (by simp)
  exact ⟨hset.objects, hset.gSessionid, hset.misused, hset.live⟩

theorem Becomes.call (hb : Becomes h t h') (c : KcpCall) : Becomes h t (h'.call c) :=
  ⟨hb.objects, hb.gSessionid, hb.misused, hb.live⟩

theorem Becomes.sent (hb : Becomes h t h') (sent : List KcpDatagram) :
    Becomes h t { h' with sent := sent } :=
  ⟨hb.objects, hb.gSessionid, hb.misused, hb.live⟩

/-! ## 3. One call -/

theorem sendMsg_returns (hl : h.Live) (hs : h.heap p = some s) (msgtype : Int) (msg : List UInt8) :
    ∃ h', h.sendMsg p msgtype msg = .ok h' ∧ Becomes h h.objects h' := by
  obtain ⟨kcp, hkcp, -⟩ := hl.kcp hs
  rw [sendMsg, useKcp_eq hs hkcp]
  exact ⟨_, rfl, setKcp_becomes hl hs hkcp _ _⟩

theorem sendMsgs_returns (msgs : List (Int × List UInt8)) (hl : h.Live) (hs : h.heap p = some s) :
    ∃ h', msgs.foldlM (fun h m => h.sendMsg p m.1 m.2) h = .ok h' ∧ Becomes h h.objects h' := by
  induction msgs generalizing h s with
  | nil => exact ⟨h, rfl, Becomes.refl hl⟩
  | cons m msgs ih =>
    obtain ⟨h₁, hrun₁, hb₁⟩ := sendMsg_returns hl hs m.1 m.2
    obtain ⟨s₁, hs₁, -⟩ := hb₁.heap hs
    obtain ⟨h₂, hrun₂, hb₂⟩ := ih hb₁.live hs₁
    refine ⟨h₂, ?_, hb₁.trans (hb₁.objects ▸ hb₂)⟩
    rw [List.foldlM_cons, hrun₁]
    exact hrun₂

/-- A session is released and its entry leaves the table. -/
theorem release_becomes (hl : h.Live) (hs : h.heap p = some s) :
    ∃ h', h.release p = .ok h' ∧
      Becomes h (h.objects.destroy p s.getSessionId) (h'.erase s.getSessionId) := by
  rw [release, use_eq hs]
  refine ⟨_, rfl, ?_, rfl, rfl, ?_⟩
  · simp only [objects, erase, setSession, call, ObjectTable.destroy, Function.update_idem]
    congr 1
    funext q
    simp only [Function.update_apply]
    split <;> rfl
  · intro q s' hq
    simp only [erase, setSession, call, Function.update_apply] at hq
    split at hq
    · cases hq
    · exact hl q s' hq

theorem closeSession_returns (hl : h.Live) (hs : h.heap p = some s) :
    ∃ h', h.closeSession p = .ok h' ∧ Becomes h (h.objects.close p) h' := by
  have hkey : h.objects.key p = some s.getSessionId := by
    show (h.heap p).map _ = _
    rw [hs, Option.map_some]
  rw [closeSession, use_eq hs, ObjectTable.close, hkey]
  simp only [bind, Except.bind]
  by_cases hentry : (h.__m_mapSessions s.getSessionId).isSome = true
  · rw [if_pos hentry, if_pos (show (h.objects.table _).isSome = true from hentry)]
    -- `closeSession` erases the entry first; the order does not show
    obtain ⟨h', hrun, hb⟩ := release_becomes hl hs
    refine ⟨h'.erase s.getSessionId, ?_, hb⟩
    rw [release, use_eq hs] at hrun
    rw [release, use_eq (show (h.erase s.getSessionId).heap p = some s from hs)]
    cases hrun
    rfl
  · rw [if_neg hentry, if_neg (show ¬ (h.objects.table _).isSome = true from hentry)]
    exact ⟨h, rfl, Becomes.refl hl⟩

/-- What a callback leaves: the objects as they were, or with the session closed. -/
theorem callback_returns (hl : h.Live) (hs : h.heap p = some s) (c : KcpCallback) :
    ∃ h', h.callback p c = .ok h' ∧
      Becomes h (if c.closeSession then h.objects.close p else h.objects) h' := by
  obtain ⟨h₁, hrun₁, hb₁⟩ := sendMsgs_returns c.sendMsg hl hs
  rw [callback, hrun₁]
  simp only [bind, Except.bind]
  split
  · obtain ⟨s₁, hs₁, -⟩ := hb₁.heap hs
    obtain ⟨h₂, hrun₂, hb₂⟩ := closeSession_returns hb₁.live hs₁
    exact ⟨h₂, hrun₂, hb₁.trans (hb₁.objects ▸ hb₂)⟩
  · exact ⟨h₁, rfl, hb₁⟩

theorem onMsg_returns (hl : h.Live) (hs : h.heap p = some s) (packet : UdpPacket) (e : KcpEvents) :
    ∃ h', h._onMsg p packet e = .ok h' ∧
      Becomes h (if e.onMsg.closeSession then h.objects.close p else h.objects) h' := by
  have hb₁ := setSession_becomes hl hs { s with __m_nTalkTime := e.talkTime } rfl (hl p s hs)
  obtain ⟨s₁, hs₁, -⟩ := hb₁.heap hs
  rw [_onMsg, use_eq hs]
  simp only [bind, Except.bind]
  have hb₂ := hb₁.call (.onMsg p packet.getMsgType packet)
  obtain ⟨h₃, hrun, hb₃⟩ := callback_returns hb₂.live hs₁ e.onMsg
  exact ⟨h₃, hrun, hb₂.trans (hb₂.objects ▸ hb₃)⟩

/-- The control block delivers a message when it is updated. -/
def delivers (kcp : Ikcpcb k) (millisecond : UInt32) : Bool :=
  let state := (k.update kcp.conv kcp.state millisecond).1
  decide (0 < k.peeksize state ∧ 0 < (k.recv state (k.peeksize state)).2.1)

/-- `onMsg` closes the session, which the table has. -/
def Closing (h : KcpHost k) (s : KcpSession k) (e : KcpEvents) : Prop :=
  e.onMsg.closeSession = true ∧ (h.__m_mapSessions s.getSessionId).isSome = true

theorem close_eq_of_not_closing (hs : h.heap p = some s) {e : KcpEvents}
    (hc : e.onMsg.closeSession = true) (hno : ¬ h.Closing s e) : h.objects.close p = h.objects := by
  have hkey : h.objects.key p = some s.getSessionId := by
    show (h.heap p).map _ = _
    rw [hs, Option.map_some]
  rw [ObjectTable.close, hkey]
  exact if_neg fun hentry => hno ⟨hc, hentry⟩

theorem heap_close_of_closing (hs : h.heap p = some s) {e : KcpEvents} (hc : h.Closing s e)
    (hb : Becomes h (h.objects.close p) h') : h'.heap p = none := by
  have hkey : h.objects.key p = some s.getSessionId := by
    show (h.heap p).map _ = _
    rw [hs, Option.map_some]
  have hnone : h'.objects.key p = none := by
    rw [hb.objects, ObjectTable.close, hkey]
    simp only [if_pos (show (h.objects.table s.getSessionId).isSome = true from hc.2)]
    exact Function.update_self _ _ _
  exact Option.map_eq_none_iff.mp hnone

/-- How a function on a host ends: it returns unless `bad`, and then the objects are as before; or
it uses the session `p` that has just been closed. -/
def Ends (h : KcpHost k) (p : KcpPtr) (bad : Prop) (r : KcpRun k (KcpHost k)) : Prop :=
  (¬ bad ∧ ∃ h', r = .ok h' ∧ Becomes h h.objects h') ∨
    bad ∧ ∃ h', r = .error { h' with misused := true } ∧ Becomes h (h.objects.close p) h'

theorem receiveMsg_ends (hl : h.Live) (hs : h.heap p = some s) {kcp : Ikcpcb k}
    (hkcp : s.__m_kcp = some kcp) (peeksize : Int) (e : KcpEvents) :
    h.Ends p (0 < (k.recv kcp.state peeksize).2.1 ∧ h.Closing s e)
      (h.receiveMsg p peeksize e) := by
  have hb₁ := setKcp_becomes hl hs hkcp (k.recv kcp.state peeksize).1 []
  obtain ⟨s₁, hs₁, hid₁⟩ := hb₁.heap hs
  rw [receiveMsg, useKcp_eq hs hkcp]
  simp only [bind, Except.bind]
  by_cases hrcv : 0 < (k.recv kcp.state peeksize).2.1
  · rw [if_pos hrcv]
    obtain ⟨h₂, hrun, hb₂⟩ := onMsg_returns hb₁.live hs₁
      (UdpPacket.received peeksize.toNat (k.recv kcp.state peeksize).2.2) e
    rw [hrun]
    have hb := hb₁.trans hb₂
    rw [hb₁.objects] at hb
    by_cases hc : h.Closing s e
    · -- the session is gone when the packet is recycled
      rw [if_pos hc.1] at hb
      refine .inr ⟨⟨hrcv, hc⟩, h₂, ?_, hb⟩
      simp only [use, heap_close_of_closing hs hc hb]
      rfl
    · have hb' : Becomes h h.objects h₂ := by
        split at hb
        · rename_i hclose
          rwa [close_eq_of_not_closing hs hclose hc] at hb
        · exact hb
      obtain ⟨s₂, hs₂, -⟩ := hb'.heap hs
      refine .inl ⟨fun h => hc h.2, h₂, ?_, hb'⟩
      simp only [use_eq hs₂]
      rfl
  · rw [if_neg hrcv]
    refine .inl ⟨fun h => hrcv h.1, _, ?_, hb₁⟩
    simp only [pure, Except.pure, use_eq hs₁]

theorem updateBase_ends (hl : h.Live) (hs : h.heap p = some s) {kcp : Ikcpcb k}
    (hkcp : s.__m_kcp = some kcp) (millisecond : UInt32) (e : KcpEvents) :
    (¬ (delivers kcp millisecond = true ∧ h.Closing s e) ∧ ∃ h' time,
        h.updateBase p millisecond e = .ok (h', time) ∧ Becomes h h.objects h') ∨
      (delivers kcp millisecond = true ∧ h.Closing s e) ∧ ∃ h',
        h.updateBase p millisecond e = .error { h' with misused := true } ∧
          Becomes h (h.objects.close p) h' := by
  obtain ⟨r, hr⟩ : ∃ r, k.update kcp.conv kcp.state millisecond = r := ⟨_, rfl⟩
  have hb₁ := setKcp_becomes hl hs hkcp r.1 r.2
  obtain ⟨s₁, hs₁, hkcp₁, hid₁⟩ : ∃ s₁, (h.setKcp p s kcp.conv r.1 r.2).heap p = some s₁ ∧
      s₁.__m_kcp = some ⟨kcp.conv, r.1⟩ ∧ s₁.getSessionId = s.getSessionId := by
    refine ⟨{ s with __m_kcp := some ⟨kcp.conv, r.1⟩ }, Function.update_self _ _ _, rfl, ?_⟩
    simp only [KcpSession.getSessionId, hkcp]
  -- `ikcp_check` finds the control block when the session is still there
  have hcheck : ∀ h₂, Becomes h h.objects h₂ → ∃ time, (do
      let r ← h₂.useKcp p
      pure (h₂, k.check r.2.state millisecond) : KcpRun k _) = .ok (h₂, time) := by
    intro h₂ hb₂
    obtain ⟨s₂, hs₂, -⟩ := hb₂.heap hs
    obtain ⟨kcp₂, hkcp₂, -⟩ := hb₂.live.kcp hs₂
    rw [useKcp_eq hs₂ hkcp₂]
    exact ⟨_, rfl⟩
  have hdelivers : delivers kcp millisecond =
      decide (0 < k.peeksize r.1 ∧ 0 < (k.recv r.1 (k.peeksize r.1)).2.1) := by
    rw [delivers, hr]
  rw [hdelivers, decide_eq_true_eq, updateBase, use_eq hs]
  simp only [bind, Except.bind, hkcp, hr]
  by_cases hpeek : 0 < k.peeksize r.1
  · rw [if_pos hpeek]
    have hclosing : (h.setKcp p s kcp.conv r.1 r.2).Closing s₁ e ↔ h.Closing s e := by
      rw [Closing, Closing, hid₁]
      rfl
    rcases receiveMsg_ends hb₁.live hs₁ hkcp₁ (k.peeksize r.1) e with
      ⟨hno, h₂, hrun, hb₂⟩ | ⟨⟨hrcv, hc⟩, h₂, hrun, hb₂⟩
    · have hb := hb₁.trans (hb₁.objects ▸ hb₂)
      obtain ⟨time, htime⟩ := hcheck h₂ hb
      refine .inl ⟨fun hbad => hno ⟨hbad.1.2, hclosing.mpr hbad.2⟩, h₂, time, ?_, hb⟩
      rw [hrun]
      exact htime
    · refine .inr ⟨⟨⟨hpeek, hrcv⟩, hclosing.mp hc⟩, h₂, ?_, hb₁.trans (hb₁.objects ▸ hb₂)⟩
      rw [hrun]
  · rw [if_neg hpeek]
    obtain ⟨time, htime⟩ := hcheck _ hb₁
    exact .inl ⟨fun hbad => hpeek hbad.1.1, _, time, htime, hb₁⟩

theorem updateKcp_ends (hl : h.Live) (hs : h.heap p = some s) {kcp : Ikcpcb k}
    (hkcp : s.__m_kcp = some kcp) (e : KcpEvents) :
    h.Ends p (delivers kcp e.currt = true ∧ h.Closing s e) (h.updateKcp p e) := by
  rcases updateBase_ends hl hs hkcp e.currt e with ⟨hno, h₁, time, hrun, hb₁⟩ |
    ⟨hbad, h₁, hrun, hb₁⟩
  · obtain ⟨s₁, hs₁, -⟩ := hb₁.heap hs
    have hb₂ := setSession_becomes hb₁.live hs₁ { s₁ with __m_nUpdateTime := time } rfl
      (hb₁.live p s₁ hs₁)
    refine .inl ⟨hno, _, ?_, hb₁.trans (hb₁.objects ▸ hb₂)⟩
    rw [updateKcp, hrun]
    simp only [bind, Except.bind, setUpdateTime, use_eq hs₁]
    rfl
  · refine .inr ⟨hbad, h₁, ?_, hb₁⟩
    rw [updateKcp, hrun]
    rfl

/-- What a step comes to: the objects are `t`, or `t` with one of them closed; and it uses a deleted
session if `bad`. -/
def Outcome (h : KcpHost k) (t : ObjectTable UInt32) (bad : Prop) (r : KcpRun k (KcpHost k)) :
    Prop :=
  ∃ u h', (u = t ∨ ∃ p, u = t.close p) ∧ Becomes h u h' ∧
    (¬ bad ∧ r = .ok h' ∨ bad ∧ r = .error { h' with misused := true })

theorem Ends.outcome {bad : Prop} {r : KcpRun k (KcpHost k)} (hends : h.Ends p bad r) :
    h.Outcome h.objects bad r := by
  rcases hends with ⟨hno, h', hrun, hb⟩ | ⟨hbad, h', hrun, hb⟩
  · exact ⟨_, h', .inl rfl, hb, .inl ⟨hno, hrun⟩⟩
  · exact ⟨_, h', .inr ⟨p, rfl⟩, hb, .inr ⟨hbad, hrun⟩⟩

theorem callback_outcome (hb : Becomes h t h') (hs : h'.heap p = some s) (c : KcpCallback)
    {bad : Prop} (hno : ¬ bad) : h.Outcome t bad (h'.callback p c) := by
  obtain ⟨h₁, hrun, hb₁⟩ := callback_returns hb.live hs c
  refine ⟨_, h₁, ?_, hb.trans hb₁, .inl ⟨hno, hrun⟩⟩
  rw [hb.objects]
  split
  · exact .inr ⟨p, rfl⟩
  · exact .inl rfl

/-- The timer of a session. -/
theorem update_outcome (hl : h.Live) (hs : h.heap p = some s) {kcp : Ikcpcb k}
    (hkcp : s.__m_kcp = some kcp) (e : KcpEvents) :
    h.Outcome h.objects
      (s.__m_nUpdateTime ≤ e.currt ∧ delivers kcp e.currt = true ∧ h.Closing s e)
      (h.update p e) := by
  have htimeout : ∀ h₁, Becomes h h.objects h₁ → ∀ bad : Prop, ¬ bad → h.Outcome h.objects bad (do
      let s ← h₁.use p
      if s.__m_nTalkTime + s.__m_nTimeout < e.currt then
        (h₁.call (.onUdpTimeout p)).callback p e.onUdpTimeout
      else pure h₁) := by
    intro h₁ hb₁ bad hno
    obtain ⟨s₁, hs₁, -⟩ := hb₁.heap hs
    have hb₂ := hb₁.call (.onUdpTimeout p)
    rw [use_eq hs₁]
    simp only [bind, Except.bind]
    split
    · exact callback_outcome hb₂ hs₁ _ hno
    · exact ⟨_, h₁, .inl rfl, hb₁, .inl ⟨hno, rfl⟩⟩
  rw [update, use_eq hs]
  simp only [bind, Except.bind]
  by_cases htime : s.__m_nUpdateTime ≤ e.currt
  · rw [if_pos htime]
    rcases updateKcp_ends hl hs hkcp e with ⟨hno, h₁, hrun, hb₁⟩ | ⟨hbad, h₁, hrun, hb₁⟩
    · rw [hrun]
      exact htimeout h₁ hb₁ _ fun hbad => hno hbad.2
    · rw [hrun]
      exact ⟨_, h₁, .inr ⟨p, rfl⟩, hb₁, .inr ⟨⟨htime, hbad⟩, rfl⟩⟩
  · rw [if_neg htime]
    exact htimeout h (Becomes.refl hl) _ fun hbad => htime hbad.1

end KcpHost

end LuaServer
