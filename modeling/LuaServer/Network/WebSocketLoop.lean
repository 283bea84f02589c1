import LuaServer.Network.WebSocketStream

/-!
# WebSocketLoop — which reads the frame loop ends on

The loop gets through any bytes up to a head whose length is read as a number it cannot wait for.
Only a masked frame with a length of eight bytes has such a head: the connection takes the four high
bytes of the length, least significant first, for an `int32`.
-/

open Reasoning

namespace LuaServer

namespace WebSocketPacket

theorem frameReader_advances : frameReader.Advances where
  create_headFull := by decide
  readHead_lt p bs hh hbs := by
    rw [readHead_eq hh hbs]
    exact headBytes_length_lt hh hbs
  dispatch_ne_nil p := by
    change p.dispatch ≠ []
    rw [dispatch_eq]
    split <;> exact List.cons_ne_nil _ _

end WebSocketPacket

namespace WebSocketConnect

open WebSocketPacket

/-- Frames that complete, a head that is never left with what is read for it, and one more byte. -/
inductive Hostile : List UInt8 → Prop
  | hangs {bs : List UInt8} : Hangs bs → Hostile bs
  | frame {bs rest : List UInt8} {f : ReadFrame} : Completes bs f rest → Hostile rest → Hostile bs

theorem hostile_iff {bs rest : List UInt8} {f : ReadFrame} (h : Completes bs f rest) :
    Hostile bs ↔ Hostile rest := by
  constructor
  · intro hbad
    cases hbad with
    | hangs hhangs => exact absurd hhangs h.not_hangs
    | frame h' hbad =>
      obtain ⟨-, rfl⟩ := h.unique h'
      exact hbad
  · exact .frame h

/-- The reader gets through exactly the streams that are not hostile. -/
theorem feeds_iff_not_hostile (bs : List UInt8) (tr : List WebSocketReaction) :
    (∃ t, Feeds frameReader.turn (none, tr) bs t) ↔ ¬ Hostile bs := by
  induction hn : bs.length using Nat.strongRecOn generalizing bs tr with
  | ind n ih =>
    by_cases hc : ∃ f rest, Completes bs f rest
    · obtain ⟨f, rest, hframe⟩ := hc
      simp only [hframe.feeds_iff, hostile_iff hframe]
      exact ih rest.length (hn ▸ hframe.length_lt) rest _ rfl
    by_cases hh : Hangs bs
    · exact iff_of_false hh.not_feeds fun hno => hno (.hangs hh)
    · obtain ⟨p, hp⟩ := (idles_of_not hc hh : Idles none tr bs).feeds
      apply iff_of_true ⟨_, hp⟩
      intro hbad
      cases hbad with
      | hangs hhangs => exact hh hhangs
      | frame hframe _ => exact hc ⟨_, _, hframe⟩

section
variable (format : Tools.Format) (base64Sha1 : List UInt8 → List UInt8) {size : UInt32}

/-- What reads after the handshake lead to. -/
theorem reads_after_handshake {b : MessageBuffer size} {c : WebSocketConnect}
    {rs : List (Read size)} {s : TcpSocketBase size WebSocketConnect}
    (hs : EchoReads (onMsgbuffer format base64Sha1) ⟨b.reset, c.betweenFrames⟩ rs s) :
    s.AtRest ∧ s.derived.m_isHandshake = true ∧
      Feeds frameReader.turn (none, c.frames.2) (rs.map Read.bytes).flatten s.derived.frames := by
  obtain ⟨f, hf, hd⟩ := (echoReads_frames_iff format base64Sha1
    (s := ⟨b.reset, c.betweenFrames⟩) rfl rfl rs s.derived).mp ⟨s, hs, rfl⟩
  refine ⟨hs.atRest rfl, ?_, ?_⟩
  · rw [hd]
    rfl
  · rw [hd]
    exact hf

/-- In every state that reads after the handshake lead to, the loop ends on the next read, and each
of its turns uses up a byte or dispatches a frame, exactly when the bytes received with it are not
hostile. -/
theorem frameLoop_ends_iff {b : MessageBuffer size} {c : WebSocketConnect} {rs : List (Read size)}
    {s : TcpSocketBase size WebSocketConnect}
    (hs : EchoReads (onMsgbuffer format base64Sha1) ⟨b.reset, c.betweenFrames⟩ rs s)
    (r : Read size) :
    ((∃ fuel t, echoRead (onMsgbuffer format base64Sha1) fuel s r = some t) ↔
        ¬ Hostile ((rs.map Read.bytes).flatten ++ r.bytes)) ∧
      ((∀ q, Turns (fun q => decide (0 < q.2.getActiveSize)) frameBody
          (s.derived.frames, s.mBuffer.receive r) q → 0 < q.2.getActiveSize →
            packetOps.Progresses q) ↔
        ¬ Hostile ((rs.map Read.bytes).flatten ++ r.bytes)) := by
  obtain ⟨hrest, hphase, hsofar⟩ := reads_after_handshake format base64Sha1 hs
  have hbounds : (s.mBuffer.receive r).InBounds := hrest ▸ s.mBuffer.receive_inBounds r
  have hactive : (s.mBuffer.receive r).active = r.bytes := hrest ▸ s.mBuffer.receive_active r
  have hfeeds : (∃ f, Feeds frameReader.turn s.derived.frames r.bytes f) ↔
      ¬ Hostile ((rs.map Read.bytes).flatten ++ r.bytes) := by
    rw [← feeds_iff_not_hostile _ c.frames.2]
    apply exists_congr
    intro f
    rw [feeds_append_iff frameReader_lawful.resumable]
    constructor
    · intro hf
      exact ⟨s.derived.frames, hsofar, hf⟩
    · rintro ⟨m, hm, hf⟩
      rwa [hm.unique hsofar] at hf
  have hends : (∃ fuel t, echoRead (onMsgbuffer format base64Sha1) fuel s r = some t) ↔
      ∃ f, Feeds frameReader.turn s.derived.frames r.bytes f := by
    constructor
    · rintro ⟨fuel, t, ht⟩
      obtain ⟨f, hf, -⟩ := (echoRead_frames_iff format base64Sha1 hphase hrest r).mp ⟨fuel, ht⟩
      exact ⟨f, hf⟩
    · rintro ⟨f, hf⟩
      obtain ⟨fuel, ht⟩ := (echoRead_frames_iff format base64Sha1 hphase hrest r).mpr ⟨f, hf, rfl⟩
      exact ⟨fuel, _, ht⟩
  have hhalts : Halts (fun q => decide (0 < q.2.getActiveSize)) frameBody
      (s.derived.frames, s.mBuffer.receive r) ↔
        ∃ f, Feeds frameReader.turn s.derived.frames r.bytes f := by
    rw [← hactive]
    simp only [frameBody_implements.feeds_iff hbounds]
    exact Prod.exists
  have hprogress := packetOps.halts_iff_progresses (p := (s.derived.frames, s.mBuffer.receive r))
    frameBody_implements frameReader_lawful frameReader_advances hbounds
  exact ⟨hends.trans hfeeds, (hprogress.symm.trans hhalts).trans hfeeds⟩

end

theorem not_hostile_nil : ¬ Hostile [] := by
  intro h
  cases h with
  | hangs hhangs =>
    obtain ⟨head, body, rest, heq, -⟩ := hhangs
    cases heq
  | frame hframe _ => exact absurd hframe.length_lt (Nat.not_lt_zero _)

/-- A frame whose payload is one byte, without a mask. -/
def oneByteFrame : ReadFrame where
  head := ⟨0x82, 1, [], by decide⟩
  body := [104]
  good := by decide
  length_eq := by decide

/-- A connection that has just answered a handshake. -/
abbrev answered : TcpSocketBase MESSAGE_BUFFER_SIZE WebSocketConnect :=
  ⟨(MessageBuffer.create MESSAGE_BUFFER_SIZE).reset, fresh.betweenFrames⟩

/-- The frame in two reads, cut behind its first byte. -/
theorem frameLoop_ends_iff_one_byte :
    ∃ s, EchoReads (onMsgbuffer Tools.format fun _ => []) answered
        [⟨[0x82], by decide, by decide⟩] s ∧
      ∃ fuel t, echoRead (onMsgbuffer Tools.format fun _ => []) fuel s
        ⟨[1, 104], by decide, by decide⟩ = some t := by
  have hread : EchoReads (onMsgbuffer Tools.format fun _ => []) answered
      [⟨[0x82], by decide, by decide⟩] _ := ⟨_, ⟨1, rfl⟩, rfl⟩
  refine ⟨_, hread, (frameLoop_ends_iff _ _ hread ⟨[1, 104], by decide, by decide⟩).1.mpr ?_⟩
  have hframe : Completes [0x82, 1, 104] oneByteFrame [] := ⟨rfl, .inl (by decide)⟩
  exact fun hbad => not_hostile_nil ((hostile_iff hframe).mp hbad)

/-- A masked frame that announces `2 ^ 39` bytes, and the first byte of its payload. -/
def terabyteFrame : List UInt8 := [0x82, 0xFF, 0, 0, 0, 0x80, 0, 0, 0, 0, 1, 2, 3, 4, 0]

/-- The loop does not come back from the first byte of that payload. -/
theorem terabyteFrame_hangs :
    ¬ ∃ fuel t, echoRead (onMsgbuffer Tools.format fun _ => []) fuel answered
      ⟨terabyteFrame, by decide, by decide⟩ = some t := by
  rintro ⟨fuel, t, ht⟩
  have hrest : answered.AtRest := rfl
  obtain ⟨f, hf, -⟩ := (echoRead_frames_iff _ _ rfl hrest _).mp ⟨fuel, ht⟩
  have hhangs : Hangs terabyteFrame := by
    refine ⟨⟨0x82, 0xFF, [0, 0, 0, 0x80, 0, 0, 0, 0, 1, 2, 3, 4], by decide⟩, [], [0], rfl, ?_, ?_,
      List.cons_ne_nil _ _⟩
    · decide
    · decide
  exact hhangs.not_feeds ⟨f, hf⟩

end WebSocketConnect

end LuaServer
