import LuaServer.Network.TcpHandle
import LuaServer.Network.WebSocketConnect

/-!
# WebSocketClose — who calls `onClose`

`on_clsesocket` calls `onClose` when libuv has closed the handle; `on_msgbuffer` calls it too, for a
read that is no handshake, and leaves the handle open.
-/

open Reasoning

namespace LuaServer

/-- A call of `onClose`: whether the close callback makes it, and how often `uv_close` has been
called by then. -/
structure OnClose where
  fromCallback : Bool
  closes : Nat
deriving DecidableEq

/-- A connection with its handle, and the calls of `onClose` so far. -/
structure WebSocketHandle (size : UInt32) where
  connect : TcpSocketBase size WebSocketConnect
  handle : TcpHandle
  onCloses : List OnClose

/-- What can happen to a connection. -/
inductive WebSocketAction (size : UInt32)
  -- a read, with a bound on the turns of the loop
  | read (r : Read size) (fuel : Nat)
  | readError
  -- calls of `sendMsg` and `close` by the application
  | sendMsg (data : SendData)
  | close
  | writeComplete
  -- libuv calls `on_uv_close`
  | uvClosed

namespace WebSocketHandle

variable {size : UInt32}

def fresh (size : UInt32) : WebSocketHandle size :=
  ⟨TcpSocketBase.fresh size WebSocketConnect.fresh, TcpHandle.fresh, []⟩

def onClose (s : WebSocketHandle size) (fromCallback : Bool) : WebSocketHandle size :=
  { s with onCloses := s.onCloses ++ [⟨fromCallback, s.handle.closes⟩] }

def react (s : WebSocketHandle size) : WebSocketReaction → WebSocketHandle size
  | .onHandshake => s
  | .onMsg _ => s
  | .onClose => s.onClose false
  | .close => { s with handle := s.handle.close }
  | .write data => { s with handle := s.handle.write data }

/-- The connection with an empty report: a read reports its own reactions. -/
def reading (s : WebSocketHandle size) : TcpSocketBase size WebSocketConnect :=
  ⟨s.connect.mBuffer, { s.connect.derived with frames := (s.connect.derived.frames.1, []) }⟩

section
variable (format : Tools.Format) (base64Sha1 : List UInt8 → List UInt8)

def step (s : WebSocketHandle size) (a : WebSocketAction size) : Option (WebSocketHandle size) :=
  if s.handle.isAborted then none
  else match a with
    | .read r fuel =>
      if s.handle.isClosing then none
      else
        (echoRead (WebSocketConnect.onMsgbuffer format base64Sha1) fuel s.reading r).map fun t =>
          t.derived.frames.2.foldl react { s with connect := t }
    | .readError => if s.handle.isClosing then none else some { s with handle := s.handle.close }
    | .sendMsg data => some { s with handle := s.handle.write data }
    | .close => some { s with handle := s.handle.close }
    | .writeComplete =>
      if s.handle.socket.outstanding = [] then none
      else some { s with handle := s.handle.completed.onWritecomplete }
    | .uvClosed =>
      if s.handle.isCloseDue then
        some { s.onClose true with handle := { s.handle with closed := true } }
      else none

/-! ## 1. What a read reports -/

theorem not_mem_dispatch (p : WebSocketPacket) : WebSocketReaction.onClose ∉ p.dispatch := by
  rw [WebSocketPacket.dispatch]
  generalize (if p.getMask ≠ 0 then p.decodingDatas p.getMaskKey else p) = q
  intro h
  by_cases hclose : q.getOpcode.toNat = CLOSE_FRAME
  · rw [if_pos hclose] at h
    cases List.mem_singleton.mp h
  rw [if_neg hclose] at h
  split at h <;> cases List.mem_singleton.mp h

theorem not_mem_frameBody {s : WebSocketFrames × MessageBuffer size}
    (h : WebSocketReaction.onClose ∉ s.1.2) :
    WebSocketReaction.onClose ∉ (WebSocketPacket.frameBody s).1.2 := by
  intro hmem
  rcases PacketOps.mem_body hmem with hmem | ⟨p, hmem⟩
  · exact h hmem
  · exact not_mem_dispatch p hmem

@[simp] theorem foldl_react_closed (l : List WebSocketReaction) (s : WebSocketHandle size) :
    (l.foldl react s).handle.closed = s.handle.closed := by
  induction l generalizing s with
  | nil => rfl
  | cons x l ih =>
    rw [List.foldl_cons, ih]
    cases x with
    | write data => exact s.handle.write_closed data
    | _ => rfl

theorem foldl_react_onCloses {l : List WebSocketReaction} (h : WebSocketReaction.onClose ∉ l)
    (s : WebSocketHandle size) : (l.foldl react s).onCloses = s.onCloses := by
  induction l generalizing s with
  | nil => rfl
  | cons x l ih =>
    obtain ⟨hx, hl⟩ := List.ne_and_not_mem_of_not_mem_cons h
    rw [List.foldl_cons, ih hl]
    cases x with
    | onClose => exact absurd rfl hx
    | _ => rfl

/-- Before the handshake a read is a request: refused, it calls `onClose`. -/
theorem echoRead_unshaken {s : WebSocketHandle size} {t : TcpSocketBase size WebSocketConnect}
    {r : Read size} {fuel : Nat} (hs : s.connect.derived.m_isHandshake = false)
    (h : echoRead (WebSocketConnect.onMsgbuffer format base64Sha1) fuel s.reading r = some t) :
    ∃ parsed, parseHandshake (s.connect.mBuffer.receive r).getReadPointer
        (s.connect.mBuffer.receive r).getActiveSize = some parsed ∧
      (parsed = none → t.derived.frames.2 = [.onClose]) ∧
      (parsed ≠ none → WebSocketReaction.onClose ∉ t.derived.frames.2) := by
  obtain ⟨⟨c, b⟩, hmsg, rfl⟩ := Option.map_eq_some_iff.mp h
  have hphase : s.reading.derived.m_isHandshake = false := hs
  simp only [WebSocketConnect.onMsgbuffer, if_pos hphase] at hmsg
  obtain ⟨c', hshake, heq⟩ := Option.map_eq_some_iff.mp hmsg
  cases heq
  rcases WebSocketConnect.shakeHands_cases hshake with ⟨hparse, rfl⟩ |
    ⟨host, key, msg, hparse, -, rfl⟩
  · exact ⟨none, hparse, fun _ => rfl, fun hne => absurd rfl hne⟩
  · refine ⟨some (host, key), hparse, fun hnone => absurd hnone (Option.some_ne_none _), ?_⟩
    intro _ hmem
    change WebSocketReaction.onClose ∈ [_, _] at hmem
    simp at hmem

/-- After the handshake no read calls `onClose`. -/
theorem echoRead_shaken {s : WebSocketHandle size} {t : TcpSocketBase size WebSocketConnect}
    {r : Read size} {fuel : Nat} (hs : s.connect.derived.m_isHandshake = true)
    (h : echoRead (WebSocketConnect.onMsgbuffer format base64Sha1) fuel s.reading r = some t) :
    WebSocketReaction.onClose ∉ t.derived.frames.2 := by
  obtain ⟨⟨c, b⟩, hmsg, rfl⟩ := Option.map_eq_some_iff.mp h
  have hphase : ¬ s.reading.derived.m_isHandshake = false := by
    change ¬ s.connect.derived.m_isHandshake = false
    rw [hs]
    decide
  simp only [WebSocketConnect.onMsgbuffer, if_neg hphase] at hmsg
  obtain ⟨p, hloop, heq⟩ := Option.map_eq_some_iff.mp hmsg
  cases heq
  -- each turn of the loop keeps the report free of `onClose`
  have hret : Returns (fun p => decide (0 < p.2.getActiveSize)) WebSocketPacket.frameBody _ p :=
    ⟨fuel, hloop⟩
  apply hret.invariant (I := fun p => WebSocketReaction.onClose ∉ p.1.2)
  · intro q hq _
    exact not_mem_frameBody hq
  · exact List.not_mem_nil

/-! ## 2. Runs -/

/-- The request is not refused. -/
def Accepts (s : WebSocketHandle size) : WebSocketAction size → Prop
  | .read r _ => s.connect.derived.m_isHandshake = false →
      parseHandshake (s.connect.mBuffer.receive r).getReadPointer
        (s.connect.mBuffer.receive r).getActiveSize ≠ some none
  | _ => True

/-- `onClose` has been called at most once, and only by the close callback after `uv_close`. -/
def ClosesOnce (s : WebSocketHandle size) : Prop :=
  s.onCloses.length ≤ 1 ∧ ∀ call ∈ s.onCloses, call.fromCallback = true ∧ 0 < call.closes

/-- The close callback has not called `onClose` before libuv makes the call. -/
def Inv (s : WebSocketHandle size) : Prop :=
  s.handle.closed = false → ∀ call ∈ s.onCloses, call.fromCallback = false

theorem step_cases {s t : WebSocketHandle size} {a : WebSocketAction size}
    (h : s.step format base64Sha1 a = some t) :
    ¬ s.Accepts a ∧ t.handle.closed = s.handle.closed ∧
        t.onCloses = s.onCloses ++ [⟨false, s.handle.closes⟩] ∨
      s.Accepts a ∧ 0 < s.handle.closes ∧ s.handle.closed = false ∧ t.handle.closed = true ∧
        t.onCloses = s.onCloses ++ [⟨true, s.handle.closes⟩] ∨
      s.Accepts a ∧ t.handle.closed = s.handle.closed ∧ t.onCloses = s.onCloses := by
  unfold step at h
  split at h
  · cases h
  cases a with
  | read r fuel =>
    simp only at h
    split at h
    · cases h
    obtain ⟨c, hread, rfl⟩ := Option.map_eq_some_iff.mp h
    cases hs : s.connect.derived.m_isHandshake with
    | true =>
      have hno := echoRead_shaken format base64Sha1 hs hread
      refine .inr (.inr ⟨fun hfalse => ?_, foldl_react_closed _ _, foldl_react_onCloses hno _⟩)
      rw [hs] at hfalse
      cases hfalse
    | false =>
      obtain ⟨parsed, hparse, hrefused, haccepted⟩ := echoRead_unshaken format base64Sha1 hs hread
      cases parsed with
      | none =>
        refine .inl ⟨fun hacc => hacc hs hparse, foldl_react_closed _ _, ?_⟩
        rw [hrefused rfl]
        rfl
      | some parsed =>
        have hno := haccepted (Option.some_ne_none parsed)
        refine .inr (.inr ⟨fun _ => ?_, foldl_react_closed _ _, foldl_react_onCloses hno _⟩)
        rw [hparse]
        simp
  | readError =>
    simp only at h
    split at h
    · cases h
    · cases h
      exact .inr (.inr ⟨trivial, rfl, rfl⟩)
  | sendMsg data =>
    cases h
    exact .inr (.inr ⟨trivial, s.handle.write_closed data, rfl⟩)
  | close =>
    cases h
    exact .inr (.inr ⟨trivial, rfl, rfl⟩)
  | writeComplete =>
    simp only at h
    split at h
    · cases h
    · cases h
      exact .inr (.inr ⟨trivial, s.handle.completed.onWritecomplete_closed, rfl⟩)
  | uvClosed =>
    simp only at h
    split at h
    · rename_i hdue
      obtain ⟨hcloses, hclosed, -⟩ := TcpHandle.isCloseDue_iff.mp hdue
      cases h
      exact .inr (.inl ⟨trivial, hcloses, hclosed, rfl, rfl⟩)
    · cases h

theorem step_inv {s t : WebSocketHandle size} {a : WebSocketAction size} (hs : s.Inv)
    (h : s.step format base64Sha1 a = some t) : t.Inv := by
  intro hopen call hcall
  rcases step_cases format base64Sha1 h with ⟨-, hclosed, hcalls⟩ | ⟨-, -, -, hclosed, -⟩ |
    ⟨-, hclosed, hcalls⟩
  · rw [hcalls] at hcall
    rcases List.mem_append.mp hcall with hcall | hcall
    · exact hs (hclosed ▸ hopen) call hcall
    · rw [List.mem_singleton.mp hcall]
  · rw [hclosed] at hopen
    cases hopen
  · exact hs (hclosed ▸ hopen) call (hcalls ▸ hcall)

/-- A good state stays good exactly when the action does not refuse a request. -/
theorem step_closesOnce_iff {s t : WebSocketHandle size} {a : WebSocketAction size} (hs : s.Inv)
    (hgood : s.ClosesOnce) (h : s.step format base64Sha1 a = some t) :
    t.ClosesOnce ↔ s.Accepts a := by
  rcases step_cases format base64Sha1 h with ⟨hrefused, -, hcalls⟩ |
    ⟨hacc, hcloses, hopen, -, hcalls⟩ | ⟨hacc, -, hcalls⟩
  · -- the call does not come from the close callback
    refine iff_of_false (fun hbad => ?_) hrefused
    have := (hbad.2 ⟨false, s.handle.closes⟩ (by rw [hcalls]; simp)).1
    cases this
  · -- a good state in which the callback is still to come has no calls
    have hnone : s.onCloses = [] := by
      apply List.eq_nil_iff_forall_not_mem.mpr
      intro call hcall
      have htrue := (hgood.2 call hcall).1
      rw [hs hopen call hcall] at htrue
      cases htrue
    refine iff_of_true ⟨?_, ?_⟩ hacc
    · rw [hcalls, hnone]
      rfl
    · intro call hcall
      rw [hcalls, hnone, List.nil_append, List.mem_singleton] at hcall
      rw [hcall]
      exact ⟨rfl, hcloses⟩
  · refine iff_of_true ?_ hacc
    rw [ClosesOnce, hcalls]
    exact hgood

/-- In a run `onClose` is called at most once, and only by the close callback, exactly when every
read before the handshake is a request that is accepted. -/
theorem onClose_once_iff (actions : List (WebSocketAction size)) :
    Always ClosesOnce (step format base64Sha1) (fresh size) actions ↔
      Meets Accepts (step format base64Sha1) (fresh size) actions := by
  apply always_iff_meets (I := Inv)
  · intro s a t hs h
    exact step_inv format base64Sha1 hs h
  · intro s a t hs hgood h
    exact step_closesOnce_iff format base64Sha1 hs hgood h
  · intro _ call hcall
    cases hcall
  · exact ⟨Nat.zero_le _, fun _ hcall => by cases hcall⟩

end

/-- A byte that is no request and then the end of the stream: the application gets `onClose` for an
open handle, and again when libuv has closed it. -/
theorem refused_request_closes_twice :
    ∃ s, run (step Tools.format fun text => text) (fresh 16)
        [.read ⟨[88], by decide, by decide⟩ 0, .readError, .uvClosed] = some s ∧
      s.onCloses = [⟨false, 0⟩, ⟨true, 1⟩] ∧
      ¬ Always ClosesOnce (step Tools.format fun text => text) (fresh 16)
        [.read ⟨[88], by decide, by decide⟩ 0, .readError, .uvClosed] := by
  refine ⟨_, rfl, rfl, ?_⟩
  rintro ⟨-, hread⟩
  obtain ⟨⟨-, hcalls⟩, -⟩ := hread _ rfl
  cases (hcalls ⟨false, 0⟩ (List.mem_singleton.mpr rfl)).1

end WebSocketHandle

end LuaServer
