import LuaServer.Network.WebSocketLoop

/-!
# WebSocketControl — ping and close frames

`getOpcode` answers four bits.  `CLOSE_FRAME` has the four bits of a close frame; `PING_FRAME` has
the first byte of a ping with FIN, which four bits never are.  After a close frame the loop goes on
with what is left of the read.
-/

open Reasoning

namespace LuaServer

/-! ## 1. One frame -/

/-- A frame of the format with a payload of 1 to 125 bytes. -/
structure ShortFrame extends WebSocketFrame where
  payload_ne_nil : payload ≠ []
  payload_length_le : payload.length ≤ 125

namespace ShortFrame

open WebSocketPacket WebSocketFrame

/-- What the frame asks for: a ping for a pong with its payload, a close frame for `close()`, any
other frame for `onMsg` with its payload. -/
def Answered (f : ShortFrame) (reaction : WebSocketReaction) : Prop :=
  if f.opcode = 9 then
    ∃ data : SendData, reaction = .write data ∧
      data.bytes = 0x8A :: UInt8.ofNat f.payload.length :: f.payload
  else if f.opcode = 8 then reaction = .close
  else ∃ p, reaction = .onMsg p ∧ p.toBasePacket.body = f.payload

/-- The packet of the frame. -/
def packet (f : ShortFrame) : WebSocketPacket :=
  (headPacket f.toWebSocketFrame).append (mask f.key f.payload)

/-- What the connection does with the frame. -/
def reaction (f : ShortFrame) : WebSocketReaction :=
  if f.opcode = 8 then .close else .onMsg f.packet.decoded

theorem packet_dispatch (f : ShortFrame) : f.packet.dispatch = [f.reaction] := by
  have hop : f.packet.getOpcode.toNat = f.opcode :=
    FrameHead.getOpcode_toNat (headPacket_head f.toWebSocketFrame)
  rw [dispatch_eq, hop, reaction]
  split <;> rfl

theorem answered_reaction_iff (f : ShortFrame) : f.Answered f.reaction ↔ f.opcode ≠ 9 := by
  have hbody : f.packet.decoded.toBasePacket.body = f.payload :=
    decoded_body f.toWebSocketFrame f.payload_length_le
  rw [Answered, reaction]
  by_cases h9 : f.opcode = 9
  · -- a ping is handed to the event handler
    have h8 : ¬ f.opcode = 8 := by omega
    rw [if_pos h9, if_neg h8]
    apply iff_of_false
    · intro h
      obtain ⟨data, hdata, -⟩ := h
      cases hdata
    · exact not_not.mpr h9
  rw [if_neg h9]
  apply iff_of_true _ h9
  by_cases h8 : f.opcode = 8
  · rw [if_pos h8, if_pos h8]
  · rw [if_neg h8, if_neg h8]
    exact ⟨_, rfl, hbody⟩

variable (format : Tools.Format) (base64Sha1 : List UInt8 → List UInt8) {size : UInt32}

/-- The connection comes back from reads of a frame and of what follows it, having done with the
frame what it asks for and with the rest what it does between two frames, exactly when the frame is
no ping and the loop gets through the rest. -/
theorem reads_answered_iff (f : ShortFrame) (b : MessageBuffer size) (c : WebSocketConnect)
    {rest : List UInt8} {rs : List (Read size)}
    (hflat : (rs.map Read.bytes).flatten = f.encode ++ rest) :
    (∃ t, EchoReads (WebSocketConnect.onMsgbuffer format base64Sha1) ⟨b.reset, c.betweenFrames⟩
        rs t ∧
      ∃ reaction, f.Answered reaction ∧
        Feeds frameReader.turn (none, c.frames.2 ++ [reaction]) rest t.derived.frames) ↔
      f.opcode ≠ 9 ∧ ¬ WebSocketConnect.Hostile rest := by
  have hshort : ∀ g, Feeds frameReader.turn (none, c.frames.2) (f.encode ++ rest) g ↔
      Feeds frameReader.turn (none, c.frames.2 ++ [f.reaction]) rest g := by
    intro g
    rw [feeds_short_iff f.toWebSocketFrame f.payload_ne_nil f.payload_length_le]
    change Feeds frameReader.turn (none, c.frames.2 ++ f.packet.dispatch) rest g ↔ _
    rw [packet_dispatch]
  constructor
  · rintro ⟨t, ht, reaction, hanswered, hrest⟩
    obtain ⟨-, -, hfeeds⟩ := WebSocketConnect.reads_after_handshake format base64Sha1 ht
    rw [hflat, hshort] at hfeeds
    -- both reports begin with the reaction to this frame
    have hreport := PacketReader.feeds_report hfeeds
    have hreport' := PacketReader.feeds_report hrest
    have heq : c.frames.2 ++ [reaction] = c.frames.2 ++ [f.reaction] :=
      (List.prefix_of_prefix_length_le hreport' hreport (by simp)).eq_of_length (by simp)
    have hsame : reaction = f.reaction := by simpa using heq
    rw [← answered_reaction_iff, ← WebSocketConnect.feeds_iff_not_hostile rest
      (c.frames.2 ++ [f.reaction])]
    exact ⟨hsame ▸ hanswered, _, hfeeds⟩
  · rintro ⟨hping, hrest⟩
    obtain ⟨g, hg⟩ := (WebSocketConnect.feeds_iff_not_hostile rest
      (c.frames.2 ++ [f.reaction])).mpr hrest
    obtain ⟨t, ht, hd⟩ := (WebSocketConnect.echoReads_frames_iff format base64Sha1
      (s := ⟨b.reset, c.betweenFrames⟩) rfl rfl rs _).mpr ⟨g, hflat ▸ (hshort g).mpr hg, rfl⟩
    refine ⟨t, ht, f.reaction, (answered_reaction_iff f).mpr hping, ?_⟩
    rw [hd]
    exact hg

/-- However a frame is cut, the connection comes back and has done with it what it asks for, that
once and nothing else, exactly when it is no ping.  With more bytes in the same reads the loop has to
get through these as well. -/
theorem answered_iff (f : ShortFrame) (b : MessageBuffer size) (c : WebSocketConnect) :
    (∀ cut : Cut size f.encode,
      (∃ t, EchoReads (WebSocketConnect.onMsgbuffer format base64Sha1) ⟨b.reset, c.betweenFrames⟩
          cut.reads t ∧
        ∃ reaction, f.Answered reaction ∧ t.derived.frames = (none, c.frames.2 ++ [reaction])) ↔
        f.opcode ≠ 9) ∧
      ∀ rest (cut : Cut size (f.encode ++ rest)),
        (∃ t, EchoReads (WebSocketConnect.onMsgbuffer format base64Sha1)
            ⟨b.reset, c.betweenFrames⟩ cut.reads t ∧
          ∃ reaction, f.Answered reaction ∧
            Feeds frameReader.turn (none, c.frames.2 ++ [reaction]) rest t.derived.frames) ↔
          f.opcode ≠ 9 ∧ ¬ WebSocketConnect.Hostile rest := by
  constructor
  · intro cut
    have hiff := reads_answered_iff format base64Sha1 f b c
      (cut.flatten_eq.trans (List.append_nil _).symm)
    simp only [feeds_nil_iff] at hiff
    exact hiff.trans (and_iff_left WebSocketConnect.not_hostile_nil)
  · intro rest cut
    exact reads_answered_iff format base64Sha1 f b c cut.flatten_eq

/-- A masked ping frame with the payload "h". -/
def pingFrame : ShortFrame where
  first := 0x89
  key := some ⟨[1, 2, 3, 4], rfl⟩
  payload := [104]
  payload_ne_nil := by decide
  payload_length_le := by decide

def pingCut : Cut MESSAGE_BUFFER_SIZE pingFrame.encode where
  reads := [⟨[0x89, 0x81, 1, 2, 3, 4, 105], by decide, by decide⟩]
  flatten_eq := by decide

/-- The ping goes to `onMsg`, and no pong is queued. -/
theorem ping_not_answered :
    (∃ t, EchoReads (WebSocketConnect.onMsgbuffer Tools.format fun _ => [])
        WebSocketConnect.answered pingCut.reads t ∧
      t.derived.frames = (none, [.onMsg pingFrame.packet.decoded])) ∧
      ¬ ∃ t, EchoReads (WebSocketConnect.onMsgbuffer Tools.format fun _ => [])
          WebSocketConnect.answered pingCut.reads t ∧
        ∃ reaction, pingFrame.Answered reaction ∧ t.derived.frames = (none, [] ++ [reaction]) := by
  constructor
  · have hreads : EchoReads (WebSocketConnect.onMsgbuffer Tools.format fun _ => [])
        WebSocketConnect.answered pingCut.reads _ := ⟨_, ⟨2, rfl⟩, rfl⟩
    exact ⟨_, hreads, by decide⟩
  · rintro ⟨t, ht, reaction, hanswered, hframes⟩
    have hboth := (reads_answered_iff Tools.format (fun _ => []) pingFrame
      (MessageBuffer.create MESSAGE_BUFFER_SIZE) WebSocketConnect.fresh
      (pingCut.flatten_eq.trans (List.append_nil _).symm)).mp
        ⟨t, ht, reaction, hanswered, feeds_nil_iff.mpr hframes⟩
    exact absurd (by decide) hboth.1

end ShortFrame

/-! ## 2. Frames behind a close frame -/

namespace WebSocketConnect

open WebSocketPacket

/-- Nothing is reported after `close()`. -/
def Silent (report : List WebSocketReaction) : Prop :=
  ∀ before after, report = before ++ .close :: after → after = []

/-- A close frame and behind it another frame that the loop dispatches. -/
inductive Overrun : List UInt8 → Prop
  | close {bs rest rest' : List UInt8} {f g : ReadFrame} : Completes bs f rest → f.opcode = 8 →
      Completes rest g rest' → Overrun bs
  | frame {bs rest : List UInt8} {f : ReadFrame} : Completes bs f rest → Overrun rest → Overrun bs

section
variable {report tr : List WebSocketReaction}

/-- `uv_close` is called at most once. -/
theorem Silent.count_close_le (h : Silent report) : report.count .close ≤ 1 := by
  by_cases hmem : WebSocketReaction.close ∈ report
  · obtain ⟨before, after, heq, hbefore⟩ := List.eq_append_cons_of_mem hmem
    rw [heq, h before after heq, List.count_append, List.count_eq_zero_of_not_mem hbefore]
    decide
  · rw [List.count_eq_zero_of_not_mem hmem]
    exact Nat.zero_le 1

theorem silent_of_not_mem (h : WebSocketReaction.close ∉ report) : Silent report := by
  intro before after heq
  exact absurd (heq ▸ List.mem_append_right before List.mem_cons_self) h

theorem silent_append_close (h : WebSocketReaction.close ∉ tr) : Silent (tr ++ [.close]) := by
  intro before after heq
  -- a close before the last place would be in `tr`
  rcases List.eq_nil_or_concat after with hnil | ⟨init, last, rfl⟩
  · exact hnil
  · have hsplit : tr ++ [.close] = (before ++ .close :: init) ++ [last] := by
      rw [heq]
      simp
    obtain ⟨htr, -⟩ := List.append_inj' hsplit rfl
    exact absurd (htr ▸ List.mem_append_right before List.mem_cons_self) h

theorem not_silent (tr : List WebSocketReaction) {after : List WebSocketReaction}
    (h : after ≠ []) : ¬ Silent (tr ++ [.close] ++ after) := by
  intro hsilent
  exact h (hsilent tr after (by simp))

theorem Silent.of_append {more : List WebSocketReaction} (h : Silent (report ++ more)) :
    Silent report := by
  intro before after heq
  have hnil := h before (after ++ more) (by rw [heq]; simp)
  exact (List.append_eq_nil_iff.mp hnil).1

theorem Overrun.completes {bs : List UInt8} (h : Overrun bs) :
    ∃ f rest, Completes bs f rest := by
  cases h with
  | close hframe _ _ => exact ⟨_, _, hframe⟩
  | frame hframe _ => exact ⟨_, _, hframe⟩

theorem overrun_close_iff {bs rest : List UInt8} {f : ReadFrame} (h : Completes bs f rest)
    (h8 : f.opcode = 8) : Overrun bs ↔ ∃ g rest', Completes rest g rest' := by
  constructor
  · intro hover
    cases hover with
    | close hframe _ hnext =>
      obtain ⟨-, rfl⟩ := h.unique hframe
      exact ⟨_, _, hnext⟩
    | frame hframe hnext =>
      obtain ⟨-, rfl⟩ := h.unique hframe
      exact hnext.completes
  · rintro ⟨g, rest', hnext⟩
    exact .close h h8 hnext

theorem overrun_frame_iff {bs rest : List UInt8} {f : ReadFrame} (h : Completes bs f rest)
    (h8 : f.opcode ≠ 8) : Overrun bs ↔ Overrun rest := by
  constructor
  · intro hover
    cases hover with
    | close hframe hclose _ =>
      obtain ⟨rfl, -⟩ := h.unique hframe
      exact absurd hclose h8
    | frame hframe hnext =>
      obtain ⟨-, rfl⟩ := h.unique hframe
      exact hnext
  · exact .frame h

/-- After a close frame the loop stays silent exactly when no further frame completes. -/
theorem throughout_closed_iff (htr : WebSocketReaction.close ∉ tr) (rest : List UInt8) :
    Throughout frameReader.turn (fun s => Silent s.2) (none, tr ++ [.close]) rest ↔
      ¬ ∃ g rest', Completes rest g rest' := by
  constructor
  · intro h hnext
    obtain ⟨g, rest', hframe⟩ := hnext
    have hreaction := (hframe.throughout_iff.mp h).2.head
    refine not_silent tr ?_ hreaction
    rw [ReadFrame.packet_dispatch]
    split <;> exact List.cons_ne_nil _ _
  · intro hno
    exact throughout_of_not_completes hno (silent_append_close htr)

/-- From between two frames, with no close frame so far. -/
theorem throughout_silent_iff (bs : List UInt8) (tr : List WebSocketReaction)
    (htr : WebSocketReaction.close ∉ tr) :
    Throughout frameReader.turn (fun s => Silent s.2) (none, tr) bs ↔ ¬ Overrun bs := by
  induction hn : bs.length using Nat.strongRecOn generalizing bs tr with
  | ind n ih =>
    have hsilent := silent_of_not_mem htr
    by_cases hc : ∃ f rest, Completes bs f rest
    · obtain ⟨f, rest, hframe⟩ := hc
      rw [hframe.throughout_iff, ReadFrame.packet_dispatch]
      by_cases h8 : f.opcode = 8
      · rw [if_pos h8, throughout_closed_iff htr, overrun_close_iff hframe h8]
        exact and_iff_right hsilent
      · have hmore : WebSocketReaction.close ∉ tr ++ [.onMsg f.packet.decoded] := by
          simp [htr]
        rw [if_neg h8, ih rest.length (hn ▸ hframe.length_lt) rest _ hmore rfl,
          overrun_frame_iff hframe h8]
        exact and_iff_right hsilent
    · exact iff_of_true (throughout_of_not_completes hc hsilent) fun hover => hc hover.completes

variable (format : Tools.Format) (base64Sha1 : List UInt8 → List UInt8) {size : UInt32}

/-- In every state that reads after the handshake lead to, with no close frame dispatched by them:
on the next read nothing is dispatched after a close frame exactly when the bytes received do not
have a complete frame behind a close frame. -/
theorem silent_after_close_iff {b : MessageBuffer size} {c : WebSocketConnect}
    {rs : List (Read size)} {s : TcpSocketBase size WebSocketConnect}
    (hs : EchoReads (onMsgbuffer format base64Sha1) ⟨b.reset, c.betweenFrames⟩ rs s)
    (hopen : WebSocketReaction.close ∉ s.derived.frames.2) (r : Read size) :
    (∀ q, Turns (fun q => decide (0 < q.2.getActiveSize)) frameBody
        (s.derived.frames, s.mBuffer.receive r) q → Silent q.1.2) ↔
      ¬ Overrun ((rs.map Read.bytes).flatten ++ r.bytes) := by
  obtain ⟨hrest, -, hsofar⟩ := reads_after_handshake format base64Sha1 hs
  have hbounds : (s.mBuffer.receive r).InBounds := hrest ▸ s.mBuffer.receive_inBounds r
  have hactive : (s.mBuffer.receive r).active = r.bytes := hrest ▸ s.mBuffer.receive_active r
  have hreport := PacketReader.feeds_report hsofar
  have htr : WebSocketReaction.close ∉ c.frames.2 := fun hmem => hopen (hreport.subset hmem)
  -- a report that is silent was silent before the last turn
  have hback : ∀ (s : WebSocketFrames) (bs : List UInt8),
      Silent (frameReader.turn s bs).1.2 → Silent s.2 := by
    intro s bs h
    obtain ⟨more, hmore⟩ := PacketReader.turn_report (R := frameReader) s bs
    rw [← hmore] at h
    exact h.of_append
  rw [frameBody_implements.throughout_iff (P := fun s => Silent s.2) hbounds, hactive,
    ← throughout_silent_iff _ c.frames.2 htr,
    throughout_append_iff frameReader_lawful.resumable hback hsofar]
  exact (and_iff_right (hsofar.throughout hback (silent_of_not_mem hopen))).symm

end

theorem oneByte_length : ([] : List UInt8).length = restLength 1 := rfl

/-- A close frame with a payload of one byte. -/
def closeFrame : ReadFrame where
  head := ⟨0x88, 1, [], oneByte_length⟩
  body := [3]
  good := by decide
  length_eq := by decide

/-- The close frame in two reads; the second one has the head of another frame as well. -/
theorem silent_after_close_iff_head :
    ∃ s, EchoReads (onMsgbuffer Tools.format fun _ => []) answered
        [⟨[0x88], by decide, by decide⟩] s ∧
      ∀ q, Turns (fun q => decide (0 < q.2.getActiveSize)) frameBody
        (s.derived.frames, s.mBuffer.receive ⟨[1, 3, 0x82, 5], by decide, by decide⟩) q →
          Silent q.1.2 := by
  have hread : EchoReads (onMsgbuffer Tools.format fun _ => []) answered
      [⟨[0x88], by decide, by decide⟩] _ := ⟨_, ⟨1, rfl⟩, rfl⟩
  refine ⟨_, hread, (silent_after_close_iff _ _ hread List.not_mem_nil
    ⟨[1, 3, 0x82, 5], by decide, by decide⟩).mpr ?_⟩
  have hframe : Completes [0x88, 1, 3, 0x82, 5] closeFrame [0x82, 5] := ⟨rfl, .inl (by decide)⟩
  intro hover
  obtain ⟨g, rest, hnext⟩ := (overrun_close_iff hframe rfl).mp hover
  -- the second head announces five bytes
  have hhead : (⟨0x82, 5, [], by decide⟩ : FrameHead).bytes ++ [] =
      g.head.bytes ++ (g.body ++ rest) := by
    rw [← List.append_assoc]
    exact hnext.1
  obtain ⟨hg, htail⟩ := FrameHead.bytes_append_inj hhead
  have hbody : g.body = [] := (List.append_eq_nil_iff.mp htail.symm).1
  have hlen := g.length_eq
  rw [hbody, ← hg] at hlen
  exact absurd hlen (by decide)

/-- Two close frames in one read: `uv_close` is called twice. -/
theorem close_twice :
    ∃ t, (∃ fuel, echoRead (onMsgbuffer Tools.format fun _ => []) fuel answered
        ⟨[0x88, 1, 3, 0x88, 1, 3], by decide, by decide⟩ = some t) ∧
      t.derived.frames.2 = [.close, .close] ∧
      ¬ ∀ q, Turns (fun q => decide (0 < q.2.getActiveSize)) frameBody
        (answered.derived.frames,
          answered.mBuffer.receive ⟨[0x88, 1, 3, 0x88, 1, 3], by decide, by decide⟩) q →
            Silent q.1.2 := by
  have hloop : Returns (fun q => decide (0 < q.2.getActiveSize)) frameBody
      (answered.derived.frames,
        answered.mBuffer.receive ⟨[0x88, 1, 3, 0x88, 1, 3], by decide, by decide⟩) _ := ⟨4, rfl⟩
  refine ⟨_, ⟨4, rfl⟩, rfl, ?_⟩
  intro hsilent
  cases hsilent _ hloop.turns [] [.close] rfl

end WebSocketConnect

end LuaServer
