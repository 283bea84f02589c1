import LuaServer.Common.Timer
import LuaServer.Network.KcpHost
import LuaServer.Reasoning.WrapClock

/-!
# KcpTimer — the times of a KCP session

A session keeps three `uint32`: its timeout, when it was last talked to, and when it wants to be
updated.  The timer compares them with what `XTime::iclock()` shows, which wraps after `2 ^ 32` ms.
The model runs beside a clock that does not wrap.
-/

open Reasoning

namespace LuaServer

/-! ## 1. `ikcp_check` -/

/-- What `ikcp_check` reads of a control block. -/
structure IkcpClock where
  updated : Bool
  ts_flush : UInt32
  -- `resendts` of the segments in `snd_buf`
  resendts : List UInt32
  interval : UInt32
  -- `ikcp_create` sets 100, and `ikcp_interval` and `ikcp_nodelay` cut off what is larger
  interval_le : interval ≤ 5000

def _itimediff (later earlier : UInt32) : Int := toInt32 (later - earlier).toNat

namespace IkcpClock

/-- The loop over `snd_buf`, with `tm_packet`; none where it returns `current`. -/
def checkLoop (current : UInt32) : List UInt32 → Int → Option Int
  | [], tm_packet => some tm_packet
  | resendts :: rest, tm_packet =>
    let diff := _itimediff resendts current
    if diff ≤ 0 then none else checkLoop current rest (if diff < tm_packet then diff else tm_packet)

def ikcp_check (kcp : IkcpClock) (current : UInt32) : UInt32 :=
  if kcp.updated = false then current
  else
    let ts_flush :=
      if 10000 ≤ _itimediff current kcp.ts_flush ∨ _itimediff current kcp.ts_flush < -10000
      then current else kcp.ts_flush
    if 0 ≤ _itimediff current ts_flush then current
    else
      let tm_flush := _itimediff ts_flush current
      match checkLoop current kcp.resendts 0x7fffffff with
      | none => current
      | some tm_packet =>
        let minimal := UInt32.ofInt (if tm_packet < tm_flush then tm_packet else tm_flush)
        current + (if kcp.interval ≤ minimal then kcp.interval else minimal)

/-- How long after `current` the next update is due. -/
def wait (kcp : IkcpClock) (current : UInt32) : UInt32 := kcp.ikcp_check current - current

theorem ikcp_check_eq (kcp : IkcpClock) (current : UInt32) :
    kcp.ikcp_check current = current + kcp.wait current := by
  rw [wait, UInt32.add_comm, UInt32.sub_add_cancel]

theorem wait_le (kcp : IkcpClock) (current : UInt32) : kcp.wait current ≤ 5000 := by
  have hnow : current - current ≤ 5000 := by rw [UInt32.sub_self]; exact UInt32.zero_le
  have hcut : ∀ minimal, (if kcp.interval ≤ minimal then kcp.interval else minimal) ≤ 5000 := by
    intro minimal
    apply UInt32.le_trans _ kcp.interval_le
    split
    · exact UInt32.le_refl _
    · exact UInt32.le_of_lt (UInt32.not_le.mp ‹_›)
  rw [wait, ikcp_check]
  split
  · exact hnow
  extract_lets ts_flush tm_flush
  split
  · exact hnow
  split
  · exact hnow
  · rw [UInt32.add_comm, UInt32.add_sub_cancel]
    exact hcut _

end IkcpClock

/-! ## 2. The session -/

/-- What `KcpSessionBase::update` leaves: the reading of the clock in `_onMsg`, if a message has
come, and what `ikcp_check` has returned. -/
structure BaseUpdate where
  onMsg : Option UInt32
  check : UInt32

@[ext] structure KcpTimes where
  __m_nTimeout : UInt32
  __m_nTalkTime : UInt32
  __m_nUpdateTime : UInt32
deriving DecidableEq

namespace KcpTimes

/-- The constructor and `start`. -/
def start (timeout talkTime : UInt32) : KcpTimes := ⟨timeout, talkTime, 0⟩

def updateKcp (s : KcpTimes) (base : BaseUpdate) : KcpTimes :=
  { s with __m_nTalkTime := base.onMsg.getD s.__m_nTalkTime, __m_nUpdateTime := base.check }

/-- `currt >= __m_nUpdateTime`. -/
def isDue (s : KcpTimes) (currt : UInt32) : Bool := decide (s.__m_nUpdateTime ≤ currt)

/-- `currt > __m_nTalkTime + __m_nTimeout`. -/
def isTimeout (s : KcpTimes) (currt : UInt32) : Bool :=
  decide (s.__m_nTalkTime + s.__m_nTimeout < currt)

/-- `update`: the session, and whether `KcpSessionBase::update` and `onUdpTimeout` are called. -/
def update (s : KcpTimes) (currt : UInt32) (base : BaseUpdate) : KcpTimes × Bool × Bool :=
  let s' := if s.isDue currt then s.updateKcp base else s
  (s', s.isDue currt, s'.isTimeout currt)

end KcpTimes

/-! ## 3. The session on its host -/

/-- The fields of a session that the timer compares. -/
def KcpSession.times {k : Ikcp} (s : KcpSession k) : KcpTimes :=
  ⟨s.__m_nTimeout, s.__m_nTalkTime, s.__m_nUpdateTime⟩

/-- The call is `onUdpTimeout` of the session. -/
def KcpCall.isUdpTimeout (p : KcpPtr) : KcpCall → Bool
  | .onUdpTimeout conn => decide (conn = p)
  | _ => false

namespace KcpHost

variable {k : Ikcp} {h h' h'' : KcpHost k} {p : KcpPtr} {s : KcpSession k} {α β : Type}

/-- The session is as before or has been deleted, and has not been timed out. -/
structure Keeps (p : KcpPtr) (h h' : KcpHost k) : Prop where
  times : ∀ s', h'.heap p = some s' → ∃ s, h.heap p = some s ∧ s'.times = s.times
  timeouts : h'.calls.countP (KcpCall.isUdpTimeout p) = h.calls.countP (KcpCall.isUdpTimeout p)

theorem Keeps.refl : Keeps p h h := ⟨fun s' hs' => ⟨s', hs', rfl⟩, rfl⟩

theorem Keeps.trans (h₁ : Keeps p h h') (h₂ : Keeps p h' h'') : Keeps p h h'' := by
  refine ⟨?_, h₂.timeouts.trans h₁.timeouts⟩
  intro s'' hs''
  obtain ⟨s', hs', htimes'⟩ := h₂.times s'' hs''
  obtain ⟨s, hs, htimes⟩ := h₁.times s' hs'
  exact ⟨s, hs, htimes'.trans htimes⟩

theorem bind_eq_ok_iff {x : KcpRun k α} {f : α → KcpRun k β} {r : β} :
    x >>= f = .ok r ↔ ∃ a, x = .ok a ∧ f a = .ok r := by
  cases x with
  | ok a => exact ⟨fun h => ⟨a, rfl, h⟩, fun ⟨_, ha, h⟩ => Except.ok.inj ha ▸ h⟩
  | error e => exact ⟨fun h => (nomatch h), fun ⟨_, ha, _⟩ => (nomatch ha)⟩

theorem ite_bind_eq_ok {c : Prop} [Decidable c] {x y : KcpRun k α} {f : α → KcpRun k β} {r : β}
    (h : (if c then x >>= f else y >>= f) = .ok r) :
    ∃ a, (if c then x else y) = .ok a ∧ f a = .ok r := by
  split at h <;> rename_i hc
  · rw [if_pos hc]
    exact bind_eq_ok_iff.mp h
  · rw [if_neg hc]
    exact bind_eq_ok_iff.mp h

theorem use_eq_ok_iff : h.use p = .ok s ↔ h.heap p = some s := by
  rw [use]
  cases h.heap p with
  | none =>
    constructor
    · intro h
      cases h
    · intro h
      cases h
  | some s' => exact ⟨fun h => congrArg some (Except.ok.inj h), fun h => by cases h; rfl⟩

theorem useKcp_eq_ok {kcp : Ikcpcb k} (hrun : h.useKcp p = .ok (s, kcp)) :
    h.heap p = some s ∧ s.__m_kcp = some kcp := by
  obtain ⟨s', hs', hrun⟩ := bind_eq_ok_iff.mp hrun
  cases hkcp : s'.__m_kcp with
  | none =>
    rw [hkcp] at hrun
    exact nomatch hrun
  | some kcp' =>
    rw [hkcp] at hrun
    cases hrun
    exact ⟨use_eq_ok_iff.mp hs', hkcp⟩

theorem setSession_keeps (hs : h.heap p = some s) (s' : KcpSession k) (htimes : s'.times = s.times) :
    Keeps p h (h.setSession p s') := by
  refine ⟨?_, rfl⟩
  intro s'' hs''
  have hself : (h.setSession p s').heap p = some s' := Function.update_self _ _ _
  cases hself.symm.trans hs''
  exact ⟨s, hs, htimes⟩

theorem setKcp_keeps (hs : h.heap p = some s) (conv : UInt32) (state : k.State)
    (output : List (List UInt8)) : Keeps p h (h.setKcp p s conv state output) := by
  have hset := setSession_keeps hs { s with __m_kcp := some ⟨conv, state⟩ } rfl
  exact ⟨hset.times, hset.timeouts⟩

theorem call_timeouts (h : KcpHost k) (p : KcpPtr) (c : KcpCall) :
    (h.call c).calls.countP (KcpCall.isUdpTimeout p) =
      h.calls.countP (KcpCall.isUdpTimeout p) + if c.isUdpTimeout p then 1 else 0 := by
  rw [call, List.countP_append, List.countP_singleton]

theorem sendMsg_keeps {msgtype : Int} {msg : List UInt8}
    (hrun : h.sendMsg p msgtype msg = .ok h') : Keeps p h h' := by
  obtain ⟨⟨s, kcp⟩, hs, hrun⟩ := bind_eq_ok_iff.mp hrun
  cases hrun
  exact setKcp_keeps (useKcp_eq_ok hs).1 _ _ _

theorem sendMsgs_keeps {msgs : List (Int × List UInt8)}
    (hrun : msgs.foldlM (fun h m => h.sendMsg p m.1 m.2) h = .ok h') : Keeps p h h' := by
  induction msgs generalizing h with
  | nil =>
    cases hrun
    exact Keeps.refl
  | cons m msgs ih =>
    rw [List.foldlM_cons] at hrun
    obtain ⟨h₁, hrun₁, hrun⟩ := bind_eq_ok_iff.mp hrun
    exact (sendMsg_keeps hrun₁).trans (ih hrun)

/-- A session that is released is gone. -/
theorem release_keeps (hrun : h.release p = .ok h') : Keeps p h h' := by
  obtain ⟨s, -, hrun⟩ := bind_eq_ok_iff.mp hrun
  cases hrun
  refine ⟨?_, ?_⟩
  · intro s' hs'
    exact absurd hs' (by simp only [Function.update_self, reduceCtorEq, not_false_iff])
  · exact call_timeouts _ p (.onClose p)

theorem closeSession_keeps (hrun : h.closeSession p = .ok h') : Keeps p h h' := by
  obtain ⟨s, -, hrun⟩ := bind_eq_ok_iff.mp hrun
  split at hrun
  · have hkeeps := release_keeps hrun
    exact ⟨hkeeps.times, hkeeps.timeouts⟩
  · cases hrun
    exact Keeps.refl

theorem callback_keeps {c : KcpCallback} (hrun : h.callback p c = .ok h') : Keeps p h h' := by
  obtain ⟨h₁, hrun₁, hrun⟩ := bind_eq_ok_iff.mp hrun
  have hkeeps := sendMsgs_keeps hrun₁
  split at hrun
  · exact hkeeps.trans (closeSession_keeps hrun)
  · cases hrun
    exact hkeeps

/-- The session has these times or has been deleted, and has not been timed out. -/
structure Leaves (p : KcpPtr) (times : KcpTimes) (h h' : KcpHost k) : Prop where
  times : ∀ s', h'.heap p = some s' → s'.times = times
  timeouts : h'.calls.countP (KcpCall.isUdpTimeout p) = h.calls.countP (KcpCall.isUdpTimeout p)

theorem Keeps.leaves (hkeeps : Keeps p h h') (hs : h.heap p = some s) : Leaves p s.times h h' := by
  refine ⟨?_, hkeeps.timeouts⟩
  intro s' hs'
  obtain ⟨s₁, hs₁, htimes⟩ := hkeeps.times s' hs'
  cases hs.symm.trans hs₁
  exact htimes

theorem Leaves.keeps {times : KcpTimes} (hleaves : Leaves p times h h') (hkeeps : Keeps p h' h'') :
    Leaves p times h h'' := by
  refine ⟨?_, hkeeps.timeouts.trans hleaves.timeouts⟩
  intro s'' hs''
  obtain ⟨s', hs', htimes⟩ := hkeeps.times s'' hs''
  exact htimes.trans (hleaves.times s' hs')

theorem Keeps.and_leaves {times : KcpTimes} (hkeeps : Keeps p h h')
    (hleaves : Leaves p times h' h'') : Leaves p times h h'' :=
  ⟨hleaves.times, hleaves.timeouts.trans hkeeps.timeouts⟩

theorem setSession_leaves (s : KcpSession k) : Leaves p s.times h (h.setSession p s) := by
  refine ⟨?_, rfl⟩
  intro s' hs'
  have hself : (h.setSession p s).heap p = some s := Function.update_self _ _ _
  cases hself.symm.trans hs'
  rfl

/-- The times of a session after `_onMsg`, if it has been called. -/
def talkedTimes (s : KcpSession k) (onMsg : Option UInt32) : KcpTimes :=
  { s.times with __m_nTalkTime := onMsg.getD s.__m_nTalkTime }

theorem onMsg_leaves {packet : UdpPacket} {e : KcpEvents} (hs : h.heap p = some s)
    (hrun : h._onMsg p packet e = .ok h') : Leaves p (talkedTimes s (some e.talkTime)) h h' := by
  obtain ⟨s', hs', hrun⟩ := bind_eq_ok_iff.mp hrun
  cases hs.symm.trans (use_eq_ok_iff.mp hs')
  have hset : Leaves p (talkedTimes s (some e.talkTime)) h
      (h.setSession p { s with __m_nTalkTime := e.talkTime }) :=
    setSession_leaves ({ s with __m_nTalkTime := e.talkTime } : KcpSession k)
  have hcall : Keeps p (h.setSession p { s with __m_nTalkTime := e.talkTime })
      ((h.setSession p { s with __m_nTalkTime := e.talkTime }).call
        (.onMsg p packet.getMsgType packet)) :=
    ⟨Keeps.refl.times, call_timeouts _ p _⟩
  exact (hset.keeps hcall).keeps (callback_keeps hrun)

theorem receiveMsg_leaves {peeksize : Int} {e : KcpEvents} (hs : h.heap p = some s)
    (hrun : h.receiveMsg p peeksize e = .ok h') :
    ∃ onMsg : Option UInt32, (∀ t ∈ onMsg, t = e.talkTime) ∧
      Leaves p (talkedTimes s onMsg) h h' := by
  obtain ⟨⟨s', kcp⟩, hs', hrun⟩ := bind_eq_ok_iff.mp hrun
  cases hs.symm.trans (useKcp_eq_ok hs').1
  obtain ⟨h₁, hrun₁, hrun⟩ := ite_bind_eq_ok hrun
  obtain ⟨_, -, hrun⟩ := bind_eq_ok_iff.mp hrun
  cases hrun
  have hkcp := setKcp_keeps hs kcp.conv (k.recv kcp.state peeksize).1 []
  split at hrun₁
  · have hself : (h.setKcp p s kcp.conv (k.recv kcp.state peeksize).1 []).heap p =
        some { s with __m_kcp := some ⟨kcp.conv, (k.recv kcp.state peeksize).1⟩ } :=
      Function.update_self _ _ _
    have hleaves := onMsg_leaves hself hrun₁
    refine ⟨some e.talkTime, ?_, hkcp.and_leaves hleaves⟩
    intro t ht
    exact (Option.mem_some.mp ht).symm
  · cases hrun₁
    refine ⟨none, ?_, hkcp.leaves hs⟩
    intro t ht
    cases ht

theorem updateBase_leaves {millisecond time : UInt32} {e : KcpEvents} (hs : h.heap p = some s)
    (hrun : h.updateBase p millisecond e = .ok (h', time)) :
    ∃ onMsg : Option UInt32, (∀ t ∈ onMsg, t = e.talkTime) ∧
      Leaves p (talkedTimes s onMsg) h h' := by
  have hnone : ∀ h', Keeps p h h' → ∃ onMsg : Option UInt32, (∀ t ∈ onMsg, t = e.talkTime) ∧
      Leaves p (talkedTimes s onMsg) h h' := by
    intro h' hkeeps
    refine ⟨none, ?_, hkeeps.leaves hs⟩
    intro t ht
    cases ht
  obtain ⟨s', hs', hrun⟩ := bind_eq_ok_iff.mp hrun
  cases hs.symm.trans (use_eq_ok_iff.mp hs')
  cases hkcp : s.__m_kcp with
  | none =>
    rw [hkcp] at hrun
    cases hrun
    exact hnone h Keeps.refl
  | some kcp =>
    simp only [hkcp] at hrun
    obtain ⟨h₁, hrun₁, hrun⟩ := ite_bind_eq_ok hrun
    obtain ⟨_, -, hrun⟩ := bind_eq_ok_iff.mp hrun
    cases hrun
    have hset := setKcp_keeps hs kcp.conv (k.update kcp.conv kcp.state millisecond).1
      (k.update kcp.conv kcp.state millisecond).2
    split at hrun₁
    · have hself : (h.setKcp p s kcp.conv (k.update kcp.conv kcp.state millisecond).1
          (k.update kcp.conv kcp.state millisecond).2).heap p =
          some { s with __m_kcp := some ⟨kcp.conv, _⟩ } := Function.update_self _ _ _
      obtain ⟨onMsg, honMsg, hleaves⟩ := receiveMsg_leaves hself hrun₁
      exact ⟨onMsg, honMsg, hset.and_leaves hleaves⟩
    · cases hrun₁
      exact hnone _ hset

theorem updateKcp_leaves {e : KcpEvents} (hs : h.heap p = some s)
    (hrun : h.updateKcp p e = .ok h') :
    ∃ base : BaseUpdate, (∀ t ∈ base.onMsg, t = e.talkTime) ∧
      Leaves p (s.times.updateKcp base) h h' := by
  obtain ⟨⟨h₁, time⟩, hrun₁, hrun⟩ := bind_eq_ok_iff.mp hrun
  obtain ⟨onMsg, honMsg, hleaves⟩ := updateBase_leaves hs hrun₁
  obtain ⟨s₁, hs₁, hrun⟩ := bind_eq_ok_iff.mp hrun
  cases hrun
  have htimes := hleaves.times s₁ (use_eq_ok_iff.mp hs₁)
  refine ⟨⟨onMsg, time⟩, honMsg, ?_⟩
  have hset : Leaves p ({ s₁ with __m_nUpdateTime := time } : KcpSession k).times h₁
      (h₁.setSession p { s₁ with __m_nUpdateTime := time }) :=
    setSession_leaves ({ s₁ with __m_nUpdateTime := time } : KcpSession k)
  have heq : ({ s₁ with __m_nUpdateTime := time } : KcpSession k).times =
      s.times.updateKcp ⟨onMsg, time⟩ := by
    show { s₁.times with __m_nUpdateTime := time } = _
    rw [htimes]
    rfl
  rw [heq] at hset
  exact ⟨hset.times, hset.timeouts.trans hleaves.timeouts⟩

/-- The timer of a session that is not deleted while it goes off: the session is left with the times
of `KcpTimes.update`, and is timed out when that says so. -/
theorem update_times {e : KcpEvents} (hs : h.heap p = some s) (hrun : h.update p e = .ok h') :
    ∃ base : BaseUpdate, (∀ t ∈ base.onMsg, t = e.talkTime) ∧
      (∀ s', h'.heap p = some s' → s'.times = (s.times.update e.currt base).1) ∧
      h'.calls.countP (KcpCall.isUdpTimeout p) = h.calls.countP (KcpCall.isUdpTimeout p) +
        if (s.times.update e.currt base).2.2 then 1 else 0 := by
  obtain ⟨s', hs', hrun⟩ := bind_eq_ok_iff.mp hrun
  cases hs.symm.trans (use_eq_ok_iff.mp hs')
  obtain ⟨h₁, hrun₁, hrun⟩ := ite_bind_eq_ok hrun
  obtain ⟨s₁, hs₁, hrun⟩ := bind_eq_ok_iff.mp hrun
  have hs₁ := use_eq_ok_iff.mp hs₁
  -- the branch of the update
  obtain ⟨base, hbase, hleaves⟩ : ∃ base : BaseUpdate, (∀ t ∈ base.onMsg, t = e.talkTime) ∧
      Leaves p (s.times.update e.currt base).1 h h₁ := by
    split at hrun₁
    · rename_i hdue
      obtain ⟨base, hbase, hleaves⟩ := updateKcp_leaves hs hrun₁
      have hdue' : s.times.isDue e.currt = true := decide_eq_true hdue
      refine ⟨base, hbase, ?_⟩
      rw [KcpTimes.update, hdue']
      exact hleaves
    · rename_i hdue
      cases hrun₁
      have hdue' : s.times.isDue e.currt = false := decide_eq_false hdue
      refine ⟨⟨none, 0⟩, ?_, ?_⟩
      · intro t ht
        cases ht
      · rw [KcpTimes.update, hdue']
        exact Keeps.refl.leaves hs
  refine ⟨base, hbase, ?_⟩
  have htimeout : (s.times.update e.currt base).2.2 = s₁.times.isTimeout e.currt := by
    rw [hleaves.times s₁ hs₁]
    rfl
  rw [htimeout]
  split at hrun
  · rename_i hlate
    have hcall : Keeps p (h₁.call (.onUdpTimeout p)) h' := callback_keeps hrun
    have hlate' : s₁.times.isTimeout e.currt = true := decide_eq_true hlate
    refine ⟨?_, ?_⟩
    · intro s'' hs''
      obtain ⟨s', hs', htimes⟩ := hcall.times s'' hs''
      exact htimes.trans (hleaves.times s' hs')
    · rw [hcall.timeouts, call_timeouts, hleaves.timeouts, hlate']
      simp [KcpCall.isUdpTimeout]
  · rename_i hlate
    cases hrun
    have hlate' : s₁.times.isTimeout e.currt = false := decide_eq_false hlate
    refine ⟨hleaves.times, ?_⟩
    rw [hleaves.timeouts, hlate']
    rfl

end KcpHost

/-! ## 4. Runs beside a clock that does not wrap -/

/-- What a tick of the timer did: when, when the session had been talked to last and was due, and
which functions were called. -/
structure KcpTick where
  now : Nat
  talked : Nat
  due : Option Nat
  updated : Bool
  timedOut : Bool
deriving DecidableEq

/-- A session, the instants that its fields stand for, and its ticks. -/
structure KcpClock where
  session : KcpTimes
  -- when the clock has been read last
  clock : Nat
  talked : Nat
  -- what `ikcp_check` has returned last
  due : Option Nat
  ticks : List KcpTick
deriving DecidableEq

/-- The timer goes off, or a datagram comes in: when `update` or `updateKcp` reads the clock, when
`_onMsg` reads it if there is a message, and the control block at the end. -/
inductive KcpTimerAction
  | update (now : Nat) (onMsg : Option Nat) (kcp : IkcpClock)
  | updateKcp (now : Nat) (onMsg : Option Nat) (kcp : IkcpClock)

namespace KcpClock

def started (time : Nat) (timeout : UInt32) : KcpClock where
  session := KcpTimes.start timeout (iclock time)
  clock := time
  talked := time
  due := none
  ticks := []

/-- The clock is read at `now`, and in `_onMsg` not before. -/
def Reads (s : KcpClock) (now : Nat) (onMsg : Option Nat) : Prop :=
  s.clock ≤ now ∧ ∀ time ∈ onMsg, now ≤ time

instance (s : KcpClock) (now : Nat) (onMsg : Option Nat) : Decidable (s.Reads now onMsg) :=
  inferInstanceAs (Decidable (_ ∧ _))

def base (now : Nat) (onMsg : Option Nat) (kcp : IkcpClock) : BaseUpdate where
  onMsg := onMsg.map iclock
  check := kcp.ikcp_check (iclock now)

/-- The instants after `KcpSessionBase::update`. -/
def updateKcp (s : KcpClock) (now : Nat) (onMsg : Option Nat) (kcp : IkcpClock) : KcpClock :=
  { s with
    session := s.session.updateKcp (base now onMsg kcp)
    clock := onMsg.getD now
    talked := onMsg.getD s.talked
    due := some (now + (kcp.wait (iclock now)).toNat) }

def update (s : KcpClock) (now : Nat) (onMsg : Option Nat) (kcp : IkcpClock) : KcpClock :=
  let r := s.session.update (iclock now) (base now onMsg kcp)
  let t := if r.2.1 then s.updateKcp now onMsg kcp else { s with clock := now }
  { t with session := r.1, ticks := s.ticks ++ [⟨now, t.talked, s.due, r.2.1, r.2.2⟩] }

def step (s : KcpClock) : KcpTimerAction → Option KcpClock
  | .update now onMsg kcp => if s.Reads now onMsg then some (s.update now onMsg kcp) else none
  | .updateKcp now onMsg kcp =>
    if s.Reads now onMsg then some (s.updateKcp now onMsg kcp) else none

end KcpClock

namespace KcpTick

/-- `onUdpTimeout` is called exactly when the session has not been talked to for more than the
timeout, and a session that is due is updated. -/
def Right (timeout : UInt32) (t : KcpTick) : Prop :=
  (t.timedOut = true ↔ t.talked + timeout.toNat < t.now) ∧
    ∀ due ∈ t.due, due ≤ t.now → t.updated = true

end KcpTick

namespace KcpClock

def TicksRight (s : KcpClock) : Prop := ∀ t ∈ s.ticks, t.Right s.session.__m_nTimeout

/-- When the session has been talked to, as the timer finds it at `now`. -/
def talkedAt (s : KcpClock) (now : Nat) (onMsg : Option Nat) : Nat :=
  if s.session.isDue (iclock now) then onMsg.getD s.talked else s.talked

/-- Where the clock wraps between the timeout or the due time and the tick, their remainders stand
in the same order as they do. -/
def Fits (s : KcpClock) : KcpTimerAction → Prop
  | .update now onMsg _ =>
    let timeout := s.talkedAt now onMsg + s.session.__m_nTimeout.toNat
    (Wraps (2 ^ 32) timeout now → timeout % 2 ^ 32 < now % 2 ^ 32) ∧
      (Wraps (2 ^ 32) now timeout → now % 2 ^ 32 ≤ timeout % 2 ^ 32) ∧
      ∀ due ∈ s.due, Wraps (2 ^ 32) due now → due % 2 ^ 32 ≤ now % 2 ^ 32
  | .updateKcp _ _ _ => True

/-- The fields show the instants. -/
structure Shows (s : KcpClock) : Prop where
  talkTime : s.session.__m_nTalkTime = iclock s.talked
  updateTime : s.session.__m_nUpdateTime = (s.due.map iclock).getD 0

theorem started_shows (time : Nat) (timeout : UInt32) : (started time timeout).Shows := ⟨rfl, rfl⟩

theorem iclock_add (time : Nat) (wait : UInt32) :
    iclock (time + wait.toNat) = iclock time + wait := by
  rw [iclock, UInt32.ofNat_add, UInt32.ofNat_toNat, iclock]

theorem Shows.updateKcp {s : KcpClock} (h : s.Shows) (now : Nat) (onMsg : Option Nat)
    (kcp : IkcpClock) : (s.updateKcp now onMsg kcp).Shows := by
  refine ⟨?_, ?_⟩
  · show (onMsg.map iclock).getD s.session.__m_nTalkTime = iclock (onMsg.getD s.talked)
    cases onMsg with
    | none => exact h.talkTime
    | some time => rfl
  · show kcp.ikcp_check (iclock now) = iclock (now + (kcp.wait (iclock now)).toNat)
    rw [iclock_add, kcp.ikcp_check_eq]

/-- A tick on a session that is due, and on one that is not. -/
theorem update_cases (s : KcpClock) (now : Nat) (onMsg : Option Nat) (kcp : IkcpClock) :
    ∃ t, (t = s.updateKcp now onMsg kcp ∧ s.session.isDue (iclock now) = true ∨
        t = { s with clock := now } ∧ s.session.isDue (iclock now) = false) ∧
      t.talked = s.talkedAt now onMsg ∧
      s.update now onMsg kcp = { t with ticks := s.ticks ++
        [⟨now, t.talked, s.due, s.session.isDue (iclock now), t.session.isTimeout (iclock now)⟩] } := by
  cases hdue : s.session.isDue (iclock now) with
  | true =>
    refine ⟨_, .inl ⟨rfl, rfl⟩, ?_, ?_⟩
    · rw [talkedAt, hdue]
      rfl
    · simp only [update, KcpTimes.update, hdue, if_true]
      rfl
  | false =>
    refine ⟨_, .inr ⟨rfl, rfl⟩, ?_, ?_⟩
    · rw [talkedAt, hdue]
      rfl
    · simp only [update, KcpTimes.update, hdue, Bool.false_eq_true, if_false]

theorem step_cases {s t : KcpClock} {a : KcpTimerAction} (h : s.step a = some t) :
    (∃ now onMsg kcp, a = .update now onMsg kcp ∧ t = s.update now onMsg kcp) ∨
      ∃ now onMsg kcp, a = .updateKcp now onMsg kcp ∧ t = s.updateKcp now onMsg kcp := by
  cases a with
  | update now onMsg kcp =>
    obtain ⟨-, ht⟩ := Option.ite_none_right_eq_some.mp h
    exact .inl ⟨now, onMsg, kcp, rfl, (Option.some.inj ht).symm⟩
  | updateKcp now onMsg kcp =>
    obtain ⟨-, ht⟩ := Option.ite_none_right_eq_some.mp h
    exact .inr ⟨now, onMsg, kcp, rfl, (Option.some.inj ht).symm⟩

theorem step_shows {s t : KcpClock} {a : KcpTimerAction} (h : s.Shows) (hstep : s.step a = some t) :
    t.Shows := by
  obtain ⟨now, onMsg, kcp, rfl, rfl⟩ | ⟨now, onMsg, kcp, rfl, rfl⟩ := step_cases hstep
  · obtain ⟨t, ⟨rfl, -⟩ | ⟨rfl, -⟩, -, hupdate⟩ := s.update_cases now onMsg kcp
    · have hshows := h.updateKcp now onMsg kcp
      rw [hupdate]
      exact ⟨hshows.talkTime, hshows.updateTime⟩
    · rw [hupdate]
      exact ⟨h.talkTime, h.updateTime⟩
  · exact h.updateKcp now onMsg kcp

/-! ## 5. Which ticks are right -/

/-- The sum of two `uint32` is the remainder of the timeout. -/
theorem isTimeout_iff {session : KcpTimes} {talked : Nat}
    (h : session.__m_nTalkTime = iclock talked) (now : Nat) :
    session.isTimeout (iclock now) = true ↔
      (talked + session.__m_nTimeout.toNat) % 2 ^ 32 < now % 2 ^ 32 := by
  rw [KcpTimes.isTimeout, decide_eq_true_eq, h, UInt32.lt_iff_toNat_lt, UInt32.toNat_add,
    iclock_toNat, iclock_toNat, Nat.mod_add_mod]

theorem isDue_iff {s : KcpClock} (h : s.Shows) {due : Nat} (hdue : due ∈ s.due) (now : Nat) :
    s.session.isDue (iclock now) = true ↔ due % 2 ^ 32 ≤ now % 2 ^ 32 := by
  have htime : s.session.__m_nUpdateTime = iclock due := by
    rw [h.updateTime, Option.mem_def.mp hdue]
    rfl
  rw [KcpTimes.isDue, decide_eq_true_eq, htime, UInt32.le_iff_toNat_le, iclock_toNat, iclock_toNat]

theorem update_right_iff {s : KcpClock} (h : s.Shows) (hgood : s.TicksRight) (now : Nat)
    (onMsg : Option Nat) (kcp : IkcpClock) :
    (s.update now onMsg kcp).TicksRight ↔ s.Fits (.update now onMsg kcp) := by
  obtain ⟨t, ht, htalked, hupdate⟩ := s.update_cases now onMsg kcp
  obtain ⟨hshows, htimeout, hticks⟩ : t.Shows ∧
      t.session.__m_nTimeout = s.session.__m_nTimeout ∧ t.ticks = s.ticks := by
    obtain ⟨rfl, -⟩ | ⟨rfl, -⟩ := ht
    · exact ⟨h.updateKcp now onMsg kcp, rfl, rfl⟩
    · exact ⟨⟨h.talkTime, h.updateTime⟩, rfl, rfl⟩
  have hlast : KcpTick.Right s.session.__m_nTimeout ⟨now, t.talked, s.due,
      s.session.isDue (iclock now), t.session.isTimeout (iclock now)⟩ ↔
        s.Fits (.update now onMsg kcp) := by
    rw [KcpTick.Right, isTimeout_iff hshows.talkTime, htimeout, htalked, mod_lt_right_iff, and_assoc]
    refine and_congr_right fun _ => and_congr_right fun _ => ?_
    refine forall_congr' fun due => forall_congr' fun hdue => ?_
    rw [isDue_iff h hdue]
    exact mod_le_of_le_iff
  rw [hupdate, ← hlast]
  show (∀ tick ∈ s.ticks ++ [_], KcpTick.Right t.session.__m_nTimeout tick) ↔ _
  rw [htimeout]
  constructor
  · intro hall
    exact hall _ (List.mem_append_right _ (List.mem_singleton_self _))
  · intro hright tick htick
    rcases List.mem_append.mp htick with htick | htick
    · exact hgood tick htick
    · exact List.mem_singleton.mp htick ▸ hright

theorem step_right_iff {s t : KcpClock} {a : KcpTimerAction} (h : s.Shows) (hgood : s.TicksRight)
    (hstep : s.step a = some t) : t.TicksRight ↔ s.Fits a := by
  obtain ⟨now, onMsg, kcp, rfl, rfl⟩ | ⟨now, onMsg, kcp, rfl, rfl⟩ := step_cases hstep
  · exact update_right_iff h hgood now onMsg kcp
  · exact iff_of_true hgood trivial

/-- From the start of a session, whatever its timeout is and whenever the clock is read, all ticks
are right exactly if at each of them the remainders stand in order. -/
theorem ticks_right_iff_fits (time : Nat) (timeout : UInt32) (actions : List KcpTimerAction) :
    Always TicksRight step (started time timeout) actions ↔
      Meets Fits step (started time timeout) actions := by
  refine always_iff_meets (I := Shows) (fun _ _ _ hs hstep => step_shows hs hstep)
    (fun _ _ _ hs hgood hstep => step_right_iff hs hgood hstep) (started_shows time timeout) ?_ actions
  intro tick htick
  cases htick

/-- A control block that is to be flushed at an instant. -/
def flushAt (time : Nat) : IkcpClock where
  updated := true
  ts_flush := iclock time
  resendts := []
  interval := 100
  interval_le := by decide

/-- Two ticks, before and after the clock wraps. -/
def acrossWrap : List KcpTimerAction :=
  [.update (2 ^ 32 - 90) none (flushAt (2 ^ 32 - 40)),
    .update (2 ^ 32 + 10) none (flushAt (2 ^ 32 + 60))]

/-- A session with a timeout of 30 s starts 100 ms before the clock wraps.  A tick 10 ms later finds
it timed out; the next tick, 100 ms later, does not update it, though it is due for 50 ms. -/
theorem ticks_across_wrap :
    (run step (started (2 ^ 32 - 100) 30000) acrossWrap).map ticks =
        some [⟨2 ^ 32 - 90, 2 ^ 32 - 100, none, true, true⟩,
          ⟨2 ^ 32 + 10, 2 ^ 32 - 100, some (2 ^ 32 - 40), false, false⟩] ∧
      ¬ Always TicksRight step (started (2 ^ 32 - 100) 30000) acrossWrap := by
  refine ⟨by decide +kernel, ?_⟩
  intro halways
  -- the first of the two ticks
  have hright := (halways.2 _ rfl).head _ (List.mem_append_right _ (List.mem_singleton_self _))
  exact absurd (hright.1.mp (by decide +kernel)) (by decide +kernel)

end KcpClock

end LuaServer
