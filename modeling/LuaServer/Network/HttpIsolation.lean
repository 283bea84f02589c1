import LuaServer.Network.HttpReader
import LuaServer.Reasoning.Transition

/-!
# HttpIsolation — what lies behind the received bytes

The read buffer is used again without being cleared, by the next read and by the next connection
that gets the socket from the pool, and the search for the end of a head stops at a NUL only.  Two
sockets in the same state with different storages do the same as long as each search ends inside the
storage and finds no end of a head that the received bytes do not hold; and no longer.
-/

open Reasoning

namespace LuaServer

/-- A socket, in `on_msgbuffer` or between two reads. -/
structure HttpSocket where
  socket : TcpSocketBase MESSAGE_BUFFER_SIZE HttpConnect
  reading : Bool

inductive HttpAction
  -- `echo_read` enters the loop of `on_msgbuffer`
  | read (r : Read MESSAGE_BUFFER_SIZE)
  -- one turn of the loop
  | turn
  -- the loop is left, and the cursors are reset
  | leave
  -- `HttpServer::onClose` gives the socket to the pool, `HttpServer::createSocket` takes it again
  | reuse

namespace HttpSocket

abbrev conn (s : HttpSocket) : HttpConnect := s.socket.derived

abbrev buffer (s : HttpSocket) : HttpConnect.Buffer := s.socket.mBuffer

def resting (c : HttpConnect) (b : HttpConnect.Buffer) : HttpSocket := ⟨⟨b.reset, c⟩, false⟩

section
variable (llhttp : Llhttp) (growth : Nat → Nat → Nat)

def step (s : HttpSocket) : HttpAction → Option HttpSocket
  | .read r =>
    if s.reading = false ∧ s.conn.status = .running then
      some ⟨⟨s.buffer.receive r, s.conn⟩, true⟩
    else none
  | .turn =>
    if s.reading = true ∧ HttpConnect.loopCond (s.conn, s.buffer) = true then
      let p := HttpConnect.onMsgbufferBody llhttp growth (s.conn, s.buffer)
      some ⟨⟨p.2, p.1⟩, true⟩
    else none
  | .leave =>
    if s.reading = true ∧ HttpConnect.loopCond (s.conn, s.buffer) = false ∧
        s.conn.status ≠ .undefined then
      some ⟨⟨s.buffer.reset, s.conn⟩, false⟩
    else none
  | .reuse =>
    if s.reading = false ∧ s.conn.status ≠ .undefined then
      some ⟨⟨s.buffer, { s.conn.zero with status := .running }⟩, false⟩
    else none

end

/-- Nothing undefined has happened, and the cursors stand in order. -/
def Sound (s : HttpSocket) : Prop := s.conn.status ≠ .undefined ∧ s.buffer.rpos ≤ s.buffer.wpos

/-- There is a NUL from the read pointer on, and the text in front of it holds the end of a head
only if the received part of it does. -/
def HeadEndsInside (b : HttpConnect.Buffer) : Prop :=
  ∃ text, cString b.getReadPointer = some text ∧
    (headEnd <:+: text → headEnd <:+: text.take b.getActiveSize)

instance (b : HttpConnect.Buffer) : Decidable (HeadEndsInside b) :=
  decidable_of_iff ((cString b.getReadPointer).any fun text =>
      decide (headEnd <:+: text → headEnd <:+: text.take b.getActiveSize) = true)
    (by simp only [HeadEndsInside, Option.any_eq_true, decide_eq_true_eq])

/-- A turn that searches the end of a head finds it inside. -/
def SearchesInside (s : HttpSocket) : HttpAction → Prop
  | .turn => s.conn.m_content = none → HeadEndsInside s.buffer
  | _ => True

/-- A socket that is not reading has nothing to read. -/
structure Inv (s : HttpSocket) : Prop where
  wpos_le : s.buffer.wpos ≤ MESSAGE_BUFFER_SIZE.toNat
  rest : s.reading = false → s.buffer.reset = s.buffer

end HttpSocket

namespace HttpConnect

variable {llhttp : Llhttp} {growth : Nat → Nat → Nat}

/-! ## 1. The loop and the system -/

theorem seesOnly_of_headEndsInside {b : Buffer} (h : HttpSocket.HeadEndsInside b) :
    SeesOnly true b := by
  obtain ⟨text, htext, hinside⟩ := h
  have hview : b.getReadPointer.takeWhile (· ≠ 0) = text := by
    rw [cString] at htext
    split at htext
    · exact Option.some.inj htext
    · cases htext
  have hactive : b.active.takeWhile (· ≠ 0) = text.take b.getActiveSize := by
    rw [MessageBuffer.active, ← List.take_takeWhile, hview]
  have hroom : ¬ (true = false ∧ 0 ∉ b.active) := by simp
  rw [SeesOnly, if_neg hroom, htext, hactive, Option.map_some, Option.some.injEq]
  cases hfind : find headEnd text with
  | none => exact (find_take_eq_none hfind).symm
  | some i =>
    obtain ⟨j, hj⟩ := find_isSome_iff.mpr (hinside (find_isSome_iff.mp ⟨i, hfind⟩))
    -- the place in the received part is one in the whole text, so the first one is not behind it
    obtain ⟨-, hat, -⟩ := find_eq_some_iff.mp hj
    have hij : i ≤ j := by
      by_contra hlt
      exact (find_eq_some_iff.mp hfind).2.2 j (by omega) (prefix_drop_of_take hat)
    have hle := find_le hj
    rw [List.length_take] at hle
    exact (find_take_eq_some hfind (by omega)).symm

theorem bodyFound_finish_status (c : HttpConnect) (src : List UInt8) :
    ((c.bodyFound growth src).finish).status = c.status := by
  unfold finish
  split <;> rfl

theorem finish_status (c : HttpConnect) : c.finish.status = c.status := by
  unfold finish
  split <;> rfl

theorem takeBody_status (c : HttpConnect) (bs : List UInt8) :
    (c.takeBody growth bs).1.status = c.status := by
  unfold takeBody
  split
  · exact bodyFound_finish_status c _
  · exact c.finish_status

theorem headFound_defined (c : HttpConnect) (src : List UInt8) (h : c.status ≠ .undefined) :
    (c.headFound llhttp growth src).status ≠ .undefined := by
  unfold headFound headParsed
  simp only
  split
  · show HttpStatus.closed ≠ .undefined
    decide
  · split <;> exact h

theorem headMissing_defined (c : HttpConnect) (src : List UInt8) (h : c.status ≠ .undefined) :
    (c.headMissing growth src).status ≠ .undefined := by
  unfold headMissing
  simp only
  split
  · show HttpStatus.closed ≠ .undefined
    decide
  · exact h

theorem readerTurn_defined (c : HttpConnect) (bs : List UInt8) (h : c.status ≠ .undefined) :
    (readerTurn llhttp growth true c bs).1.status ≠ .undefined := by
  have hsearch : (c.searchIn llhttp growth true bs).1.status ≠ .undefined := by
    unfold searchIn
    rw [if_neg (by simp)]
    split
    · exact headFound_defined c _ h
    · exact headMissing_defined c _ h
  -- only the search can be undefined, so the second half of the turn changes nothing
  have hbody : ∀ s : HttpConnect × List UInt8, s.1.status ≠ .undefined →
      (if s.1.status = .running ∧ s.1.m_content ≠ none then takeBody growth s.1 s.2
        else s).1.status ≠ .undefined := by
    intro s hs
    split
    · rw [takeBody_status]
      exact hs
    · exact hs
  unfold readerTurn
  apply hbody
  split
  · exact hsearch
  · exact h

theorem readBody_rpos (s : HttpConnect × Buffer) :
    s.2.rpos ≤ (readBody growth s).2.rpos ∧ (readBody growth s).2.wpos = s.2.wpos := by
  obtain ⟨c, b⟩ := s
  unfold readBody
  simp only
  split
  · split
    · exact ⟨le_refl _, rfl⟩
    · exact ⟨Nat.le_add_right _ _, rfl⟩
  · exact ⟨le_refl _, rfl⟩

theorem readBody_wpos_lt {s : HttpConnect × Buffer} (h : s.2.wpos < s.2.rpos) :
    (readBody growth s).2.wpos < (readBody growth s).2.rpos := by
  have hrpos := @readBody_rpos growth s
  exact hrpos.2.trans_lt (h.trans_le hrpos.1)

theorem not_sound_of_search {c : HttpConnect} {b : Buffer} (hb : b.InBounds)
    (hnone : c.m_content = none) (h : ¬ HttpSocket.HeadEndsInside b) :
    (onMsgbufferBody llhttp growth (c, b)).1.status = .undefined ∨
      (onMsgbufferBody llhttp growth (c, b)).2.wpos <
        (onMsgbufferBody llhttp growth (c, b)).2.rpos := by
  have hsearch : (findHead llhttp growth (c, b)).1.status = .undefined ∨
      (findHead llhttp growth (c, b)).2.wpos < (findHead llhttp growth (c, b)).2.rpos := by
    unfold findHead
    cases hview : cString b.getReadPointer with
    | none =>
      simp only [hview]
      exact .inl rfl
    | some text =>
      simp only [hview]
      cases hfind : find headEnd text with
      | none =>
        refine absurd ⟨text, hview, fun hinfix => ?_⟩ h
        obtain ⟨i, hi⟩ := find_isSome_iff.mpr hinfix
        rw [hfind] at hi
        cases hi
      | some rpos =>
        -- what is found is not inside, so more is consumed than was received
        have hout : b.getActiveSize < rpos + 4 := by
          by_contra hle
          refine h ⟨text, hview, fun _ => find_isSome_iff.mp ⟨rpos, ?_⟩⟩
          exact find_take_eq_some hfind (show rpos + 4 ≤ _ by omega)
        right
        show b.wpos < b.rpos + (rpos + 4)
        rw [hb.getActiveSize_eq] at hout
        omega
  -- and reading the body does not move the cursors back
  unfold onMsgbufferBody
  simp only [if_pos hnone]
  rcases hsearch with hundef | hlt
  · rw [if_neg]
    · exact .inl hundef
    · rw [hundef]
      simp
  · split
    · exact .inr (readBody_wpos_lt hlt)
    · exact .inr hlt

theorem findHead_wpos (s : HttpConnect × Buffer) :
    (findHead llhttp growth s).2.wpos = s.2.wpos := by
  unfold findHead
  simp only
  split
  · rfl
  · split
    · rfl
    · split <;> rfl

theorem onMsgbufferBody_wpos (s : HttpConnect × Buffer) :
    (onMsgbufferBody llhttp growth s).2.wpos = s.2.wpos := by
  have hbody : ∀ s' : HttpConnect × Buffer, s'.2.wpos = s.2.wpos →
      (if s'.1.status = .running ∧ s'.1.m_content ≠ none then readBody growth s'
        else s').2.wpos = s.2.wpos := by
    intro s' hs'
    split
    · exact (readBody_rpos s').2.trans hs'
    · exact hs'
  unfold onMsgbufferBody
  apply hbody
  split
  · exact findHead_wpos s
  · rfl

/-- A turn is sound exactly when its search, if there is one, ends inside. -/
theorem onMsgbufferBody_sound_iff {c : HttpConnect} {b : Buffer} (hb : b.InBounds)
    (hrun : c.status = .running) :
    ((onMsgbufferBody llhttp growth (c, b)).1.status ≠ .undefined ∧
        (onMsgbufferBody llhttp growth (c, b)).2.rpos ≤
          (onMsgbufferBody llhttp growth (c, b)).2.wpos) ↔
      (c.m_content = none → HttpSocket.HeadEndsInside b) := by
  constructor
  · rintro ⟨hdefined, hle⟩ hnone
    by_contra hout
    rcases not_sound_of_search hb hnone hout with hundef | hlt
    · exact hdefined hundef
    · omega
  · intro hinside
    -- on such a buffer the turn is the turn on the received bytes
    have hagree : Agree (onMsgbufferBody llhttp growth (c, b))
        (readerTurn llhttp growth true c b.active) b :=
      onMsgbufferBody_agree hb fun hnone => seesOnly_of_headEndsInside (hinside hnone)
    obtain ⟨k, hk, hbody, -⟩ := hagree
    rw [hbody]
    refine ⟨readerTurn_defined c b.active ?_, (hb.readCompleted hk).rpos_le⟩
    rw [hrun]
    decide

end HttpConnect

namespace HttpSocket

variable {llhttp : Llhttp} {growth : Nat → Nat → Nat}

/-! ## 2. One step -/

theorem step_read {s t : HttpSocket} {r : Read MESSAGE_BUFFER_SIZE}
    (h : step llhttp growth s (.read r) = some t) :
    s.reading = false ∧ s.conn.status = .running ∧ t = ⟨⟨s.buffer.receive r, s.conn⟩, true⟩ := by
  rw [step] at h
  split at h
  · rename_i hc
    exact ⟨hc.1, hc.2, (Option.some.inj h).symm⟩
  · cases h

theorem step_turn {s t : HttpSocket} (h : step llhttp growth s .turn = some t) :
    s.reading = true ∧ HttpConnect.loopCond (s.conn, s.buffer) = true ∧
      t = ⟨⟨(HttpConnect.onMsgbufferBody llhttp growth (s.conn, s.buffer)).2,
        (HttpConnect.onMsgbufferBody llhttp growth (s.conn, s.buffer)).1⟩, true⟩ := by
  rw [step] at h
  split at h
  · rename_i hc
    exact ⟨hc.1, hc.2, (Option.some.inj h).symm⟩
  · cases h

theorem step_leave {s t : HttpSocket} (h : step llhttp growth s .leave = some t) :
    s.reading = true ∧ HttpConnect.loopCond (s.conn, s.buffer) = false ∧
      s.conn.status ≠ .undefined ∧ t = ⟨⟨s.buffer.reset, s.conn⟩, false⟩ := by
  rw [step] at h
  split at h
  · rename_i hc
    exact ⟨hc.1, hc.2.1, hc.2.2, (Option.some.inj h).symm⟩
  · cases h

theorem step_reuse {s t : HttpSocket} (h : step llhttp growth s .reuse = some t) :
    s.reading = false ∧ s.conn.status ≠ .undefined ∧
      t = ⟨⟨s.buffer, { s.conn.zero with status := .running }⟩, false⟩ := by
  rw [step] at h
  split at h
  · rename_i hc
    exact ⟨hc.1, hc.2, (Option.some.inj h).symm⟩
  · cases h

/-- The loop ends where some number of turns leads to its exit. -/
theorem returns_iff_run {c c' : HttpConnect} {b b' : HttpConnect.Buffer} :
    Returns HttpConnect.loopCond (HttpConnect.onMsgbufferBody llhttp growth) (c, b) (c', b') ↔
      ∃ n, run (step llhttp growth) ⟨⟨b, c⟩, true⟩ (List.replicate n .turn) =
        some ⟨⟨b', c'⟩, true⟩ ∧ HttpConnect.loopCond (c', b') = false := by
  constructor
  · intro h
    -- induction over the turns, from any head of the loop
    suffices H : ∀ p, Returns HttpConnect.loopCond (HttpConnect.onMsgbufferBody llhttp growth) p
        (c', b') → ∃ n, run (step llhttp growth) ⟨⟨p.2, p.1⟩, true⟩ (List.replicate n .turn) =
          some ⟨⟨b', c'⟩, true⟩ from by
      obtain ⟨n, hn⟩ := H _ h
      exact ⟨n, hn, h.cond_eq⟩
    intro p hp
    refine hp.induct (P := fun p => ∃ n, run (step llhttp growth) ⟨⟨p.2, p.1⟩, true⟩
      (List.replicate n .turn) = some ⟨⟨b', c'⟩, true⟩) (fun _ => ⟨0, rfl⟩) ?_
    rintro q hcond - ⟨n, hn⟩
    refine ⟨n + 1, run_cons_iff.mpr ⟨_, ?_, hn⟩⟩
    rw [step, if_pos ⟨rfl, hcond⟩]
  · rintro ⟨n, hrun, hexit⟩
    induction n generalizing c b with
    | zero =>
      obtain ⟨hb, hc⟩ : b = b' ∧ c = c' := by
        have heq := Option.some.inj hrun
        exact ⟨congrArg buffer heq, congrArg conn heq⟩
      subst hb hc
      exact returns_of_exit hexit
    | succ n ih =>
      obtain ⟨m, hm, hrest⟩ := run_cons_iff.mp hrun
      obtain ⟨-, hcond, rfl⟩ := step_turn hm
      exact (returns_turn_iff hcond).mpr (ih hrest)

theorem echoRead_iff_run {s t : TcpSocketBase MESSAGE_BUFFER_SIZE HttpConnect}
    (hrun : s.derived.status = .running) (r : Read MESSAGE_BUFFER_SIZE) :
    (∃ fuel, echoRead (HttpConnect.onMsgbuffer llhttp growth) fuel s r = some t) ∧
        t.derived.status ≠ .undefined ↔
      ∃ n, run (step llhttp growth) ⟨s, false⟩ (.read r :: (List.replicate n .turn ++ [.leave])) =
        some ⟨t, false⟩ := by
  have hread : step llhttp growth ⟨s, false⟩ (.read r) =
      some ⟨⟨s.mBuffer.receive r, s.derived⟩, true⟩ := if_pos ⟨rfl, hrun⟩
  constructor
  · rintro ⟨⟨fuel, hf⟩, hdefined⟩
    obtain ⟨⟨c', b'⟩, hloop, rfl⟩ := Option.map_eq_some_iff.mp hf
    obtain ⟨n, hn, hexit⟩ := returns_iff_run.mp ⟨fuel, hloop⟩
    refine ⟨n, run_cons_iff.mpr ⟨_, hread, run_append_iff.mpr ⟨_, hn, run_cons_iff.mpr ⟨_, ?_,
      rfl⟩⟩⟩⟩
    rw [step, if_pos ⟨rfl, hexit, hdefined⟩]
  · rintro ⟨n, hn⟩
    obtain ⟨m, hm, hrest⟩ := run_cons_iff.mp hn
    obtain rfl := Option.some.inj (hread.symm.trans hm)
    obtain ⟨u, hturns, hlast⟩ := run_append_iff.mp hrest
    obtain ⟨v, hleave, hv⟩ := run_cons_iff.mp hlast
    obtain ⟨hreading, hexit, hdefined, rfl⟩ := step_leave hleave
    obtain rfl : (⟨u.buffer.reset, u.conn⟩ : TcpSocketBase MESSAGE_BUFFER_SIZE HttpConnect) = t :=
      congrArg socket (Option.some.inj hv)
    have hu : u = ⟨⟨u.buffer, u.conn⟩, true⟩ := by
      cases u
      cases hreading
      rfl
    rw [hu] at hturns
    obtain ⟨fuel, hloop⟩ := returns_iff_run.mpr ⟨n, hturns, hexit⟩
    exact ⟨⟨fuel, Option.map_eq_some_iff.mpr ⟨_, hloop, rfl⟩⟩, hdefined⟩

theorem Inv.rpos_eq {s : HttpSocket} (h : s.Inv) (hrest : s.reading = false) :
    s.buffer.rpos = 0 ∧ s.buffer.wpos = 0 := by
  have hreset := h.rest hrest
  exact ⟨by rw [← hreset]; rfl, by rw [← hreset]; rfl⟩

theorem Inv.inBounds {s : HttpSocket} (h : s.Inv) (hsound : s.Sound) : s.buffer.InBounds :=
  ⟨hsound.2, h.wpos_le⟩

theorem step_inv {s t : HttpSocket} {a : HttpAction} (hs : s.Inv)
    (h : step llhttp growth s a = some t) : t.Inv := by
  cases a with
  | read r =>
    obtain ⟨hrest, -, rfl⟩ := step_read h
    refine ⟨?_, fun hfalse => by cases hfalse⟩
    have hle := r.length_le
    show s.buffer.wpos + r.bytes.length ≤ _
    rw [(hs.rpos_eq hrest).2, Nat.zero_add]
    exact hle
  | turn =>
    obtain ⟨-, -, rfl⟩ := step_turn h
    refine ⟨?_, fun hfalse => by cases hfalse⟩
    exact (HttpConnect.onMsgbufferBody_wpos (s.conn, s.buffer)).trans_le hs.wpos_le
  | leave =>
    obtain ⟨-, -, -, rfl⟩ := step_leave h
    exact ⟨Nat.zero_le _, fun _ => rfl⟩
  | reuse =>
    obtain ⟨hrest, -, rfl⟩ := step_reuse h
    exact ⟨hs.wpos_le, fun _ => hs.rest hrest⟩

/-- A step from a sound state leads to a sound state exactly when its search ends inside. -/
theorem step_sound_iff {s t : HttpSocket} {a : HttpAction} (hs : s.Inv) (hsound : s.Sound)
    (h : step llhttp growth s a = some t) : t.Sound ↔ s.SearchesInside a := by
  cases a with
  | read r =>
    obtain ⟨hrest, hrun, rfl⟩ := step_read h
    refine iff_of_true ⟨?_, ?_⟩ trivial
    · show s.conn.status ≠ _
      rw [hrun]
      decide
    · show s.buffer.rpos ≤ _
      rw [(hs.rpos_eq hrest).1]
      exact Nat.zero_le _
  | turn =>
    obtain ⟨-, hcond, rfl⟩ := step_turn h
    have hrun : s.conn.status = .running := (of_decide_eq_true hcond).2
    exact HttpConnect.onMsgbufferBody_sound_iff (hs.inBounds hsound) hrun
  | leave =>
    obtain ⟨-, -, hdefined, rfl⟩ := step_leave h
    exact iff_of_true ⟨hdefined, le_refl _⟩ trivial
  | reuse =>
    obtain ⟨hrest, -, rfl⟩ := step_reuse h
    refine iff_of_true ⟨?_, hsound.2⟩ trivial
    show HttpStatus.running ≠ .undefined
    decide

/-! ## 3. Two sockets that have received the same -/

structure SameReceived (s s' : HttpSocket) : Prop where
  reading : s.reading = s'.reading
  conn : s.conn = s'.conn
  rpos : s.buffer.rpos = s'.buffer.rpos
  wpos : s.buffer.wpos = s'.buffer.wpos
  active : s.buffer.active = s'.buffer.active

structure Related (s s' : HttpSocket) : Prop where
  inv : s.Inv
  inv' : s'.Inv
  sound : s.Sound
  sound' : s'.Sound
  same : s.SameReceived s'

theorem turn_same {s s' : HttpSocket} (h : s.Related s')
    (hinside : s.SearchesInside .turn) (hinside' : s'.SearchesInside .turn) :
    SameReceived
      ⟨⟨(HttpConnect.onMsgbufferBody llhttp growth (s.conn, s.buffer)).2,
        (HttpConnect.onMsgbufferBody llhttp growth (s.conn, s.buffer)).1⟩, true⟩
      ⟨⟨(HttpConnect.onMsgbufferBody llhttp growth (s'.conn, s'.buffer)).2,
        (HttpConnect.onMsgbufferBody llhttp growth (s'.conn, s'.buffer)).1⟩, true⟩ := by
  have hb := h.inv.inBounds h.sound
  have hb' := h.inv'.inBounds h.sound'
  have hconn := h.same.conn
  have hactive := h.same.active
  have hagree : HttpConnect.Agree (HttpConnect.onMsgbufferBody llhttp growth (s.conn, s.buffer))
      (HttpConnect.readerTurn llhttp growth true s.conn s.buffer.active) s.buffer :=
    HttpConnect.onMsgbufferBody_agree hb
      fun hnone => HttpConnect.seesOnly_of_headEndsInside (hinside hnone)
  have hagree' : HttpConnect.Agree (HttpConnect.onMsgbufferBody llhttp growth (s'.conn, s'.buffer))
      (HttpConnect.readerTurn llhttp growth true s.conn s.buffer.active) s'.buffer := by
    rw [hconn, hactive]
    exact HttpConnect.onMsgbufferBody_agree hb'
      fun hnone => HttpConnect.seesOnly_of_headEndsInside (hinside' hnone)
  obtain ⟨k, hk, hbody, hrest⟩ := hagree
  obtain ⟨k', hk', hbody', hrest'⟩ := hagree'
  -- both turns leave the same bytes, so they have read the same number
  have hkk : k = k' := by
    have hlen := congrArg List.length (hrest.symm.trans hrest')
    rw [← hactive, List.length_drop, List.length_drop] at hlen
    rw [← hactive] at hk'
    omega
  subst hkk
  rw [hbody, hbody']
  refine ⟨rfl, rfl, ?_, h.same.wpos, ?_⟩
  · show s.buffer.rpos + k = s'.buffer.rpos + k
    rw [h.same.rpos]
  · show (s.buffer.readCompleted k).active = (s'.buffer.readCompleted k).active
    rw [hb.readCompleted_active hk, hb'.readCompleted_active hk', hactive]

theorem SameReceived.loopCond {s s' : HttpSocket} (h : s.SameReceived s') :
    HttpConnect.loopCond (s'.conn, s'.buffer) = HttpConnect.loopCond (s.conn, s.buffer) := by
  unfold HttpConnect.loopCond MessageBuffer.getActiveSize
  simp only [h.conn, h.rpos, h.wpos]

/-- Related sockets take the same steps, and stay related where the search of both ends inside. -/
theorem step_related {s s' t : HttpSocket} {a : HttpAction} (h : s.Related s')
    (hinside : s.SearchesInside a) (hstep : step llhttp growth s a = some t) :
    ∃ t', step llhttp growth s' a = some t' ∧ (s'.SearchesInside a → t.Related t') := by
  -- the inversion of the step on one side tells the step on the other
  have hmain : ∃ t', step llhttp growth s' a = some t' ∧
      (s'.SearchesInside a → t.SameReceived t') := by
    have hconn := h.same.conn
    have hreading := h.same.reading
    cases a with
    | read r =>
      obtain ⟨hrest, hrun, rfl⟩ := step_read hstep
      refine ⟨⟨⟨s'.buffer.receive r, s'.conn⟩, true⟩, ?_, fun _ => ?_⟩
      · rw [step, if_pos ⟨hreading ▸ hrest, hconn ▸ hrun⟩]
      · have hreset := h.inv.rest hrest
        have hreset' := h.inv'.rest (hreading ▸ hrest)
        refine ⟨rfl, hconn, h.same.rpos, ?_, ?_⟩
        · show s.buffer.wpos + r.bytes.length = s'.buffer.wpos + r.bytes.length
          rw [h.same.wpos]
        · show (s.buffer.receive r).active = (s'.buffer.receive r).active
          rw [← hreset, ← hreset', MessageBuffer.receive_active, MessageBuffer.receive_active]
    | turn =>
      obtain ⟨hread, hcond, rfl⟩ := step_turn hstep
      refine ⟨_, ?_, fun hinside' => turn_same h hinside hinside'⟩
      rw [step, if_pos ⟨hreading ▸ hread, h.same.loopCond.trans hcond⟩]
    | leave =>
      obtain ⟨hread, hcond, hdefined, rfl⟩ := step_leave hstep
      refine ⟨⟨⟨s'.buffer.reset, s'.conn⟩, false⟩, ?_, fun _ => ?_⟩
      · rw [step, if_pos ⟨hreading ▸ hread, h.same.loopCond.trans hcond, hconn ▸ hdefined⟩]
      · refine ⟨rfl, hconn, rfl, rfl, ?_⟩
        show s.buffer.reset.getReadPointer.take 0 = s'.buffer.reset.getReadPointer.take 0
        rw [List.take_zero, List.take_zero]
    | reuse =>
      obtain ⟨hrest, hdefined, rfl⟩ := step_reuse hstep
      refine ⟨⟨⟨s'.buffer, { s'.conn.zero with status := .running }⟩, false⟩, ?_, fun _ => ?_⟩
      · rw [step, if_pos ⟨hreading ▸ hrest, hconn ▸ hdefined⟩]
      · refine ⟨rfl, ?_, h.same.rpos, h.same.wpos, h.same.active⟩
        show ({ s.conn.zero with status := .running } : HttpConnect) =
          { s'.conn.zero with status := .running }
        rw [hconn]
  -- being sound is what `SearchesInside` decides, on each side
  obtain ⟨t', hstep', hsame⟩ := hmain
  refine ⟨t', hstep', fun hinside' => ?_⟩
  exact ⟨step_inv h.inv hstep, step_inv h.inv' hstep',
    (step_sound_iff h.inv h.sound hstep).mpr hinside,
    (step_sound_iff h.inv' h.sound' hstep').mpr hinside', hsame hinside'⟩

theorem resting_inv (c : HttpConnect) (b : HttpConnect.Buffer) : (resting c b).Inv :=
  ⟨Nat.zero_le _, fun _ => rfl⟩

theorem resting_sound {c : HttpConnect} (hc : c.status ≠ .undefined) (b : HttpConnect.Buffer) :
    (resting c b).Sound := ⟨hc, le_refl _⟩

theorem resting_related {c : HttpConnect} (hc : c.status ≠ .undefined) (b b' : HttpConnect.Buffer) :
    (resting c b).Related (resting c b') where
  inv := resting_inv c b
  inv' := resting_inv c b'
  sound := resting_sound hc b
  sound' := resting_sound hc b'
  same := by
    refine ⟨rfl, rfl, rfl, rfl, ?_⟩
    show b.reset.getReadPointer.take 0 = b'.reset.getReadPointer.take 0
    rw [List.take_zero, List.take_zero]

/-- Two sockets in one state do the same, whatever their storages hold, and their loops stay sound,
exactly when in both runs each search ends inside. -/
theorem uses_only_received_iff (llhttp : Llhttp) (growth : Nat → Nat → Nat) (c : HttpConnect)
    (hc : c.status ≠ .undefined) (b b' : HttpConnect.Buffer) (actions : List HttpAction) :
    (Always Sound (step llhttp growth) (resting c b) actions ∧
        Always Sound (step llhttp growth) (resting c b') actions ∧
        ∀ t, run (step llhttp growth) (resting c b) actions = some t →
          ∃ t', run (step llhttp growth) (resting c b') actions = some t' ∧
            t.conn.reactions = t'.conn.reactions) ↔
      Meets SearchesInside (step llhttp growth) (resting c b) actions ∧
        Meets SearchesInside (step llhttp growth) (resting c b') actions := by
  -- soundness of each run, by itself
  have hiff : ∀ b, Always Sound (step llhttp growth) (resting c b) actions ↔
      Meets SearchesInside (step llhttp growth) (resting c b) actions := fun b =>
    always_iff_meets (fun _ _ _ hs h => step_inv hs h)
      (fun _ _ _ hs hsound h => step_sound_iff hs hsound h) (resting_inv c b)
      (resting_sound hc b) actions
  constructor
  · rintro ⟨hsound, hsound', -⟩
    exact ⟨(hiff b).mp hsound, (hiff b').mp hsound'⟩
  · rintro ⟨hmeets, hmeets'⟩
    refine ⟨(hiff b).mpr hmeets, (hiff b').mpr hmeets', fun t ht => ?_⟩
    have hstep : ∀ s s' a u, Related s s' → SearchesInside s a →
        step llhttp growth s a = some u → ∃ u', step llhttp growth s' a = some u' ∧
          (SearchesInside s' a → Related u u') := fun _ _ _ _ => step_related
    obtain ⟨t', ht', hrel⟩ := run_related hstep (resting_related hc b b') hmeets hmeets' ht
    exact ⟨t', ht', congrArg HttpConnect.reactions hrel.same.conn⟩

def oneRequestParser : Llhttp := fun url text =>
  if text = ascii "GET / HTTP/1.1\r\n\r\n" then ⟨true, HTTP_GET, 0, some 4, ⟨false, (0, 1), (0, 0)⟩⟩
  else ⟨false, 0, 0, none, url⟩

def firstByte : Read MESSAGE_BUFFER_SIZE := ⟨ascii "G", by decide, by decide⟩

def usedBuffer : HttpConnect.Buffer :=
  (MessageBuffer.create MESSAGE_BUFFER_SIZE).receive
    ⟨ascii "GET / HTTP/1.1\r\n\r\n", by decide, by decide⟩

theorem uses_only_received_iff_fresh :
    Always Sound (step oneRequestParser fun _ n => n)
      (resting (HttpConnect.create 0) (MessageBuffer.create MESSAGE_BUFFER_SIZE))
      [.read firstByte, .turn] := by
  have hmeets : Meets SearchesInside (step oneRequestParser fun _ n => n)
      (resting (HttpConnect.create 0) (MessageBuffer.create MESSAGE_BUFFER_SIZE))
      [.read firstByte, .turn] := by
    intro s hs
    obtain ⟨-, -, rfl⟩ := step_read hs
    refine ⟨trivial, fun t _ => ⟨fun _ => ?_, trivial⟩⟩
    exact ⟨ascii "G", by decide +kernel, by decide +kernel⟩
  exact ((uses_only_received_iff oneRequestParser (fun _ n => n) (HttpConnect.create 0) (by decide)
    _ (MessageBuffer.create MESSAGE_BUFFER_SIZE) _).mpr ⟨hmeets, hmeets⟩).1

/-- A connection from the pool answers the first byte of its first request with the request that
the connection before it has left in the storage. -/
theorem pooled_storage_answered :
    ¬ (Always Sound (step oneRequestParser fun _ n => n)
          (resting (HttpConnect.create 0) usedBuffer) [.reuse, .read firstByte, .turn] ∧
        Always Sound (step oneRequestParser fun _ n => n)
          (resting (HttpConnect.create 0) (MessageBuffer.create MESSAGE_BUFFER_SIZE))
          [.reuse, .read firstByte, .turn] ∧
        ∀ t, run (step oneRequestParser fun _ n => n)
            (resting (HttpConnect.create 0) usedBuffer) [.reuse, .read firstByte, .turn] = some t →
          ∃ t', run (step oneRequestParser fun _ n => n)
              (resting (HttpConnect.create 0) (MessageBuffer.create MESSAGE_BUFFER_SIZE))
              [.reuse, .read firstByte, .turn] = some t' ∧
            t.conn.reactions = t'.conn.reactions) := by
  have hused : ∃ t, run (step oneRequestParser fun _ n => n)
      (resting (HttpConnect.create 0) usedBuffer) [.reuse, .read firstByte, .turn] = some t ∧
      t.conn.reactions = [.onGet (some (ascii "/")) (some [])] := ⟨_, rfl, by decide +kernel⟩
  have hclean : ∃ t, run (step oneRequestParser fun _ n => n)
      (resting (HttpConnect.create 0) (MessageBuffer.create MESSAGE_BUFFER_SIZE))
      [.reuse, .read firstByte, .turn] = some t ∧ t.conn.reactions = [] :=
    ⟨_, rfl, by decide +kernel⟩
  -- the two runs take the same actions and differ in their calls
  rintro ⟨-, -, hsame⟩
  obtain ⟨t, ht, hreactions⟩ := hused
  obtain ⟨u, hu, hnone⟩ := hclean
  obtain ⟨u', hu', heq⟩ := hsame t ht
  obtain rfl := Option.some.inj (hu.symm.trans hu')
  rw [hreactions, hnone] at heq
  cases heq

end HttpSocket

end LuaServer
