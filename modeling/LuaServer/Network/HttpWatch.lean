import LuaServer.Network.HttpIsolation

/-!
# HttpWatch — a connection under observation

`step` does what the socket does and writes down the heads that the parser gets, with the place in
the received stream where each one begins, and every call of `complete()`, with the connection as it
was when the head had been parsed.  The socket does not depend on what is written down.
-/

open Reasoning

namespace LuaServer

namespace HttpConnect

/-- `readBody` up to the test of `m_residue == 0`. -/
def fillBody (growth : Nat → Nat → Nat) (s : HttpConnect × Buffer) : HttpConnect × Buffer :=
  let (c, buffer) := s
  let rlen := toInt32 buffer.getActiveSize
  if 0 < c.m_residue then
    let rlen := if rlen < c.m_residue then rlen else c.m_residue
    match buffer.readBytes (toSizeT rlen) with
    | none => (c.fail, buffer)
    | some src => (c.bodyFound growth src, buffer.readCompleted (toSizeT rlen))
  else (c, buffer)

theorem readBody_eq (growth : Nat → Nat → Nat) (s : HttpConnect × Buffer) :
    readBody growth s = ((fillBody growth s).1.finish, (fillBody growth s).2) := by
  obtain ⟨c, b⟩ := s
  unfold readBody fillBody
  by_cases hpos : 0 < c.m_residue
  · simp only [if_pos hpos]
    generalize toSizeT (if toInt32 b.getActiveSize < c.m_residue then toInt32 b.getActiveSize
      else c.m_residue) = n
    cases hread : b.readBytes n with
    | none =>
      -- a connection that has failed is not finished
      have hresidue : ¬ c.fail.m_residue = 0 := by
        change ¬ c.m_residue = 0
        omega
      simp only [finish, if_neg hresidue]
    | some src => rfl
  · simp only [if_neg hpos]

end HttpConnect

/-- A call of `complete()`: the connection after its head had been parsed, and at the call. -/
structure CompletedRequest where
  parsed : HttpConnect
  conn : HttpConnect

structure HttpWatch where
  socket : HttpSocket
  -- the bytes that the loop has used up
  consumed : Nat
  heads : List (Nat × List UInt8)
  -- the connection when the last head had been parsed
  parsed : HttpConnect
  completed : List CompletedRequest

namespace HttpWatch

abbrev conn (w : HttpWatch) : HttpConnect := w.socket.conn

abbrev buffer (w : HttpWatch) : HttpConnect.Buffer := w.socket.buffer

/-- A connection that has read nothing yet. -/
def start (c : HttpConnect) (b : HttpConnect.Buffer) : HttpWatch :=
  ⟨HttpSocket.resting c b, 0, [], c, []⟩

section
variable (llhttp : Llhttp) (growth : Nat → Nat → Nat)

/-- find head end pos -/
def search (w : HttpWatch) : HttpWatch :=
  if w.conn.m_content = none then
    let p := HttpConnect.findHead llhttp growth (w.conn, w.buffer)
    let consumed := w.consumed + (p.2.rpos - w.buffer.rpos)
    let w : HttpWatch := { w with socket := ⟨⟨p.2, p.1⟩, true⟩, consumed := consumed }
    if p.1.m_content = none then w
    else
      let text := p.1.m_readPacket.storage.take p.1.m_readPacket.wpos
      { w with heads := w.heads ++ [(consumed - text.length, text)], parsed := p.1 }
  else w

/-- What the loop does once there is `m_content`. -/
def fill (w : HttpWatch) : HttpWatch :=
  let p := HttpConnect.fillBody growth (w.conn, w.buffer)
  let w : HttpWatch := { w with
    socket := ⟨⟨p.2, p.1.finish⟩, true⟩
    consumed := w.consumed + (p.2.rpos - w.buffer.rpos) }
  if p.1.m_residue = 0 then { w with completed := w.completed ++ [⟨w.parsed, p.1⟩] } else w

def turn (w : HttpWatch) : HttpWatch :=
  let w := w.search llhttp growth
  if w.conn.status = .running ∧ w.conn.m_content ≠ none then w.fill growth else w

def step (w : HttpWatch) : HttpAction → Option HttpWatch
  | .turn =>
    if w.socket.reading = true ∧ HttpConnect.loopCond (w.conn, w.buffer) = true then
      some (w.turn llhttp growth)
    else none
  | a => (w.socket.step llhttp growth a).map fun s => { w with socket := s }

variable {llhttp growth}

/-! ## 1. The socket -/

theorem search_socket {w : HttpWatch} (hreading : w.socket.reading = true) :
    (w.search llhttp growth).socket.reading = true ∧
      ((w.search llhttp growth).conn, (w.search llhttp growth).buffer) =
        if w.conn.m_content = none then HttpConnect.findHead llhttp growth (w.conn, w.buffer)
        else (w.conn, w.buffer) := by
  unfold search
  by_cases hcontent : w.conn.m_content = none
  · simp only [if_pos hcontent]
    split <;> exact ⟨rfl, rfl⟩
  · simp only [if_neg hcontent]
    exact ⟨hreading, trivial⟩

theorem fill_socket (w : HttpWatch) :
    (w.fill growth).socket =
      ⟨⟨(HttpConnect.readBody growth (w.conn, w.buffer)).2,
        (HttpConnect.readBody growth (w.conn, w.buffer)).1⟩, true⟩ := by
  rw [HttpConnect.readBody_eq]
  unfold fill
  simp only
  split <;> rfl

theorem turn_socket {w : HttpWatch} (hreading : w.socket.reading = true) :
    (w.turn llhttp growth).socket =
      ⟨⟨(HttpConnect.onMsgbufferBody llhttp growth (w.conn, w.buffer)).2,
        (HttpConnect.onMsgbufferBody llhttp growth (w.conn, w.buffer)).1⟩, true⟩ := by
  obtain ⟨hsearching, hsearch⟩ := @search_socket llhttp growth w hreading
  have hsocket : ∀ s : HttpSocket, s.reading = true → s = ⟨⟨s.buffer, s.conn⟩, true⟩ := by
    intro s hs
    rw [← hs]
  unfold turn HttpConnect.onMsgbufferBody
  simp only [← hsearch]
  split
  · exact fill_socket _
  · exact hsocket _ hsearching

/-- The socket takes the same steps as without the watch. -/
theorem step_socket (w : HttpWatch) (a : HttpAction) :
    (w.step llhttp growth a).map socket = w.socket.step llhttp growth a := by
  have hkept : ∀ o : Option HttpSocket,
      (o.map fun s => { w with socket := s }).map socket = o := by
    intro o
    cases o <;> rfl
  cases a with
  | turn =>
    rw [step, HttpSocket.step]
    split
    · next h => exact congrArg some (turn_socket h.1)
    · rfl
  | read r => exact hkept _
  | leave => exact hkept _
  | reuse => exact hkept _

/-- What is written down changes in a turn only. -/
theorem step_cases {w t : HttpWatch} {a : HttpAction} (h : w.step llhttp growth a = some t) :
    a = .turn ∧ w.socket.reading = true ∧
        HttpConnect.loopCond (w.conn, w.buffer) = true ∧ t = w.turn llhttp growth ∨
      a ≠ .turn ∧ w.socket.step llhttp growth a = some t.socket ∧
        t = { w with socket := t.socket } := by
  cases a with
  | turn =>
    rw [step] at h
    split at h
    · next hc => exact .inl ⟨rfl, hc.1, hc.2, (Option.some.inj h).symm⟩
    · cases h
  | _ =>
    obtain ⟨s, hs, rfl⟩ := Option.map_eq_some_iff.mp h
    exact .inr ⟨by simp, hs, rfl⟩

/-- Outside the turns the connection stays as it is, or starts again. -/
theorem conn_of_step {w t : HttpWatch} {a : HttpAction} (hturn : a ≠ .turn)
    (h : w.socket.step llhttp growth a = some t.socket) :
    t.conn = w.conn ∨ t.conn = { w.conn.zero with status := .running } := by
  unfold conn
  cases a with
  | turn => exact absurd rfl hturn
  | read r =>
    rw [(HttpSocket.step_read h).2.2]
    exact .inl rfl
  | leave =>
    rw [(HttpSocket.step_leave h).2.2.2]
    exact .inl rfl
  | reuse =>
    rw [(HttpSocket.step_reuse h).2.2]
    exact .inr rfl

end

end HttpWatch

end LuaServer
