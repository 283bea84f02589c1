import LuaServer.Network.NetFraming

/-!
# NetStream — a connection on arbitrary bytes

The received bytes need not be messages.  The connection does the same on every cut of a stream,
and its loop ends unless complete messages are followed by a head that marks a length of `2 ^ 31`
or more and by at least one byte after that head.
-/

open Reasoning

namespace LuaServer

namespace NetConnect

/-! ## 1. Cuts -/

variable {size size' : UInt32}

/-- Two connections that receive the same bytes in different reads either both hang in
`on_msgbuffer` or make the same calls and are left with the same packet under construction. -/
theorem onMsgbuffer_cut_independent {stream : List UInt8} (cut : Cut size stream)
    (cut' : Cut size' stream) :
    (¬ ∃ t, EchoReads onMsgbuffer (TcpSocketBase.fresh size fresh) cut.reads t) ∧
        (¬ ∃ t, EchoReads onMsgbuffer (TcpSocketBase.fresh size' fresh) cut'.reads t) ∨
      ∃ t t', EchoReads onMsgbuffer (TcpSocketBase.fresh size fresh) cut.reads t ∧
        EchoReads onMsgbuffer (TcpSocketBase.fresh size' fresh) cut'.reads t' ∧
        t.derived.calls = t'.derived.calls ∧ t.derived.mReadPacket = t'.derived.mReadPacket := by
  have hcut := fun c => echoReads_cut_iff onMsgbuffer_implements netReader_lawful.resumable fresh
    c cut
  have hcut' := fun c => echoReads_cut_iff onMsgbuffer_implements netReader_lawful.resumable fresh
    c cut'
  -- on either cut the connection does what the reader does on the whole stream
  by_cases h : ∃ c, Feeds netReader.turn fresh stream c
  · obtain ⟨c, hc⟩ := h
    obtain ⟨t, ht, rfl⟩ := (hcut c).mpr hc
    obtain ⟨t', ht', hd⟩ := (hcut' _).mpr hc
    exact .inr ⟨t, t', ht, ht', by rw [hd], by rw [hd]⟩
  · refine .inl ⟨?_, ?_⟩
    · rintro ⟨t, ht⟩
      exact h ⟨t.derived, (hcut _).mp ⟨t, ht, rfl⟩⟩
    · rintro ⟨t, ht⟩
      exact h ⟨t.derived, (hcut' _).mp ⟨t, ht, rfl⟩⟩

/-! ## 2. Streams that the loop does not leave -/

/-- Complete messages, a head that marks `2 ^ 31` bytes or more, and at least one more byte. -/
inductive Hostile : List UInt8 → Prop
  | head {head rest : List UInt8} : head.length = 8 → 2 ^ 31 ≤ leNat (head.take 4) → rest ≠ [] →
      Hostile (head ++ rest)
  | message {head body rest : List UInt8} : head.length = 8 → leNat (head.take 4) = body.length →
      body.length < 2 ^ 31 → Hostile rest → Hostile (head ++ (body ++ rest))

theorem Hostile.length_lt {bs : List UInt8} (h : Hostile bs) : 8 < bs.length := by
  induction h with
  | head hh _ hrest =>
    have := List.length_pos_iff.mpr hrest
    rw [List.length_append]
    omega
  | message hh _ _ _ ih =>
    rw [List.length_append, List.length_append]
    omega

theorem hostile_append_iff {head rest : List UInt8} (h : head.length = 8) :
    Hostile (head ++ rest) ↔
      2 ^ 31 ≤ leNat (head.take 4) ∧ rest ≠ [] ∨
        leNat (head.take 4) < 2 ^ 31 ∧ leNat (head.take 4) ≤ rest.length ∧
          Hostile (rest.drop (leNat (head.take 4))) := by
  constructor
  · generalize hbs : head ++ rest = bs
    intro hbad
    -- the first eight bytes are the head in both readings
    cases hbad with
    | head hh hlen hrest =>
      obtain ⟨rfl, rfl⟩ := List.append_inj hbs (h.trans hh.symm)
      exact .inl ⟨hlen, hrest⟩
    | message hh hlen hlt hrest =>
      obtain ⟨rfl, rfl⟩ := List.append_inj hbs (h.trans hh.symm)
      refine .inr ⟨by omega, ?_, ?_⟩
      · rw [hlen, List.length_append]
        omega
      · rwa [hlen, List.drop_left]
  · rintro (⟨hlen, hrest⟩ | ⟨hlt, hle, hrest⟩)
    · exact .head h hlen hrest
    · rw [← List.take_append_drop (leNat (head.take 4)) rest]
      have hbody : (rest.take (leNat (head.take 4))).length = leNat (head.take 4) := by
        rw [List.length_take, Nat.min_eq_left hle]
      exact .message h hbody.symm (hbody.trans_lt hlt) hrest

/-- The reader gets through exactly the streams that are not hostile. -/
theorem feeds_iff_not_hostile (bs : List UInt8) (calls : List OnMsg) :
    (∃ t, Feeds netReader.turn (none, calls) bs t) ↔ ¬ Hostile bs := by
  induction hn : bs.length using Nat.strongRecOn generalizing bs calls with
  | ind n ih =>
    by_cases hshort : bs.length < 8
    · exact iff_of_true (feeds_head_unfinished hshort) fun h => by have := h.length_lt; omega
    -- the stream is read from its first head on
    obtain ⟨head, rest, hhead, rfl⟩ : ∃ head rest, head.length = 8 ∧ bs = head ++ rest := by
      refine ⟨bs.take 8, bs.drop 8, ?_, (List.take_append_drop 8 bs).symm⟩
      rw [List.length_take]
      omega
    rw [hostile_append_iff hhead]
    by_cases hrest : rest = []
    · subst hrest
      refine iff_of_true ⟨(some (beginPacket.fill head), calls), ?_⟩ ?_
      · rw [List.append_nil]
        exact (feeds_empty_iff hhead).mpr rfl
      · rintro (⟨-, hne⟩ | ⟨-, -, hbad⟩)
        · exact hne rfl
        · rw [List.drop_nil] at hbad
          exact absurd hbad.length_lt (by decide)
    by_cases hneg : 2 ^ 31 ≤ leNat (head.take 4)
    · exact iff_of_false (not_feeds_negative hhead hneg hrest) fun h => h (.inl ⟨hneg, hrest⟩)
    by_cases hpart : rest.length < leNat (head.take 4)
    · refine iff_of_true ⟨_, feeds_message_unfinished hhead hpart (by omega)⟩ ?_
      rintro (⟨hge, -⟩ | ⟨-, hle, -⟩) <;> omega
    · -- a complete message
      have hlen : (rest.take (leNat (head.take 4))).length = leNat (head.take 4) := by
        rw [List.length_take]
        omega
      have hnext : rest.take (leNat (head.take 4)) ≠ [] ∨ rest.drop (leNat (head.take 4)) ≠ [] := by
        by_contra h
        push Not at h
        exact hrest (by rw [← List.take_append_drop (leNat (head.take 4)) rest, h.1, h.2]; rfl)
      have hmsg : ∀ t, Feeds netReader.turn (none, calls) (head ++ (rest.take _ ++ rest.drop _)) t ↔
          Feeds netReader.turn (none, calls ++ [call head (rest.take _)]) (rest.drop _) t :=
        fun t => feeds_message_iff hhead hlen.symm (by omega) hnext
      rw [List.take_append_drop] at hmsg
      have hih := ih (rest.drop (leNat (head.take 4))).length
        (by rw [← hn, List.length_append, List.length_drop]; omega)
        (rest.drop (leNat (head.take 4)))
        (calls ++ [call head (rest.take (leNat (head.take 4)))]) rfl
      simp only [hmsg, hih]
      refine not_congr ⟨fun h => .inr ⟨by omega, by omega, h⟩, ?_⟩
      rintro (⟨hge, -⟩ | ⟨-, -, h⟩)
      · exact absurd hge hneg
      · exact h

/-! ## 3. Turns that make progress -/

/-- The turn uses up a byte or delivers a message. -/
def Progresses (p : NetConnect × MessageBuffer size) : Prop :=
  p.2.rpos < (onMsgbufferBody p).2.rpos ∨ p.1.calls.length < (onMsgbufferBody p).1.calls.length

theorem netReader_advances : netReader.Advances where
  create_headFull := rfl
  readHead_lt p bs hh hbs := by
    have hw := (NetPacket.isHeadFull_eq_false_iff p).mp hh
    have hpos := List.length_pos_iff.mpr hbs
    simp only [netReader, PacketOps.reader, packetOps, NetPacket.readHead_eq p hw, List.length_drop]
    omega
  dispatch_ne_nil _ := List.cons_ne_nil _ _

/-- The loop on a buffer in bounds ends when all its turns make progress. -/
theorem onMsgbuffer_halts_iff {p : NetConnect × MessageBuffer size} (hb : p.2.InBounds) :
    Halts (fun q => decide (0 < q.2.getActiveSize)) onMsgbufferBody p ↔
      ∀ q, Turns (fun q => decide (0 < q.2.getActiveSize)) onMsgbufferBody p q →
        0 < q.2.getActiveSize → Progresses q :=
  packetOps.halts_iff_progresses onMsgbuffer_implements netReader_lawful netReader_advances hb

/-! ## 4. Which reads the loop ends on -/

/-- In every state that reads lead to, the loop ends on the next read, and each of its turns uses
up a byte or delivers a message, exactly when the bytes received with it are not hostile. -/
theorem onMsgbuffer_ends_iff {rs : List (Read size)} {s : TcpSocketBase size NetConnect}
    (hs : EchoReads onMsgbuffer (TcpSocketBase.fresh size fresh) rs s) (r : Read size) :
    ((∃ fuel t, echoRead onMsgbuffer fuel s r = some t) ↔
        ¬ Hostile ((rs.map Read.bytes).flatten ++ r.bytes)) ∧
      ((∀ q, Turns (fun q => decide (0 < q.2.getActiveSize)) onMsgbufferBody
          (s.derived, s.mBuffer.receive r) q → 0 < q.2.getActiveSize → Progresses q) ↔
        ¬ Hostile ((rs.map Read.bytes).flatten ++ r.bytes)) := by
  have hrest : s.AtRest := hs.atRest (TcpSocketBase.fresh_atRest fresh)
  have hbounds : (s.mBuffer.receive r).InBounds := hrest ▸ s.mBuffer.receive_inBounds r
  have hactive : (s.mBuffer.receive r).active = r.bytes := hrest ▸ s.mBuffer.receive_active r
  -- the reads so far are a cut of what has been received
  have hsofar : Feeds netReader.turn fresh (rs.map Read.bytes).flatten s.derived :=
    (echoReads_cut_iff onMsgbuffer_implements netReader_lawful.resumable fresh s.derived
      ⟨rs, rfl⟩).mp ⟨s, hs, rfl⟩
  have hfeeds : (∃ d, Feeds netReader.turn s.derived r.bytes d) ↔
      ¬ Hostile ((rs.map Read.bytes).flatten ++ r.bytes) := by
    rw [← feeds_iff_not_hostile _ []]
    refine exists_congr fun d => ?_
    rw [feeds_append_iff netReader_lawful.resumable]
    constructor
    · exact fun hd => ⟨s.derived, hsofar, hd⟩
    · rintro ⟨m, hm, hd⟩
      rwa [hm.unique hsofar] at hd
  have hends : (∃ fuel t, echoRead onMsgbuffer fuel s r = some t) ↔
      ∃ d, Feeds netReader.turn s.derived r.bytes d := by
    constructor
    · rintro ⟨fuel, t, ht⟩
      exact ⟨t.derived, ((echoRead_iff onMsgbuffer_implements hrest r).mp ⟨fuel, ht⟩).1⟩
    · rintro ⟨d, hd⟩
      obtain ⟨fuel, ht⟩ := (echoRead_iff onMsgbuffer_implements
        (t := ⟨(s.mBuffer.receive r).reset, d⟩) hrest r).mpr ⟨hd, rfl⟩
      exact ⟨fuel, _, ht⟩
  have hhalts : Halts (fun q => decide (0 < q.2.getActiveSize)) onMsgbufferBody
      (s.derived, s.mBuffer.receive r) ↔ ∃ d, Feeds netReader.turn s.derived r.bytes d := by
    rw [← hactive]
    simp only [onMsgbuffer_implements.feeds_iff hbounds]
    exact Prod.exists
  exact ⟨hends.trans hfeeds, ((onMsgbuffer_halts_iff hbounds).symm.trans hhalts).trans hfeeds⟩

theorem onMsgbuffer_ends_iff_body :
    ∃ s, EchoReads onMsgbuffer (TcpSocketBase.fresh MESSAGE_BUFFER_SIZE fresh)
        [⟨[1, 0, 0, 0, 7, 0, 0, 0], by decide, by decide⟩] s ∧
      ∃ fuel t, echoRead onMsgbuffer fuel s ⟨[104], by decide, by decide⟩ = some t := by
  have hread : EchoReads onMsgbuffer (TcpSocketBase.fresh MESSAGE_BUFFER_SIZE fresh)
      [⟨[1, 0, 0, 0, 7, 0, 0, 0], by decide, by decide⟩] _ := ⟨_, ⟨1, rfl⟩, rfl⟩
  refine ⟨_, hread, (onMsgbuffer_ends_iff hread ⟨[104], by decide, by decide⟩).1.mpr ?_⟩
  change ¬ Hostile ([1, 0, 0, 0, 7, 0, 0, 0] ++ [104])
  rw [hostile_append_iff rfl]
  rintro (⟨hge, -⟩ | ⟨-, -, h⟩)
  · exact absurd hge (by decide)
  · exact absurd h.length_lt (by decide)

/-- A new connection does not come back from a head that marks `2 ^ 32 - 1` bytes and one more
byte. -/
theorem negative_length_hangs :
    ¬ ∃ fuel t, echoRead onMsgbuffer fuel (TcpSocketBase.fresh MESSAGE_BUFFER_SIZE fresh)
      ⟨[255, 255, 255, 255, 0, 0, 0, 0, 0], by decide, by decide⟩ = some t := by
  rintro ⟨fuel, t, ht⟩
  have hfeeds := ((echoRead_iff onMsgbuffer_implements (TcpSocketBase.fresh_atRest fresh) _).mp
    ⟨fuel, ht⟩).1
  refine (feeds_iff_not_hostile _ []).mp ⟨_, hfeeds⟩ ?_
  change Hostile ([255, 255, 255, 255, 0, 0, 0, 0] ++ [0])
  exact .head (by decide) (by decide) (by decide)

end NetConnect

end LuaServer
