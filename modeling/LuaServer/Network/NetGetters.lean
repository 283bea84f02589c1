import LuaServer.Common.PacketGetters
import LuaServer.Network.NetFraming

/-!
# NetGetters — what a handler reads of the packet it is given

When `onMsg` is called the read cursor stands behind the head, the write cursor at the end of the
storage, and the body has fewer than `2 ^ 31` bytes.  From there the handler's getters stay inside
the packet exactly as long as the numbers they read are there.
-/

open Reasoning

namespace LuaServer

namespace NetConnect

/-! ## 1. Packets under construction -/

/-- The storage is the head, and grows with the body up to the length that the head marks. -/
structure Building (p : NetPacket) : Prop where
  rpos_eq : p.rpos = 8
  storage_eq : p.storage.length = max 8 p.wpos
  wpos_le : p.wpos ≤ 8 ∨ (p.wpos : Int) ≤ p.getMarkLen + 8

/-- A packet as `onMsg` gets it. -/
structure Handed (p : NetPacket) : Prop where
  rpos_eq : p.rpos = 8
  head_le : 8 ≤ p.wpos
  wpos_eq : p.wpos = p.storage.length
  body_lt : p.wpos < 2 ^ 31 + 8

theorem beginPacket_building : Building beginPacket :=
  ⟨rfl, rfl, .inl (Nat.zero_le 8)⟩

theorem Building.fill {p : NetPacket} (h : Building p) {src : List UInt8}
    (hle : p.wpos + src.length ≤ 8) : Building (p.fill src) := by
  have hlen : (p.fill src).storage.length = p.storage.length := by
    rw [BasePacket.fill_storage, overwrite_length]
    have := h.storage_eq
    omega
  refine ⟨h.rpos_eq, ?_, .inl hle⟩
  have := h.storage_eq
  rw [hlen, BasePacket.fill_wpos]
  omega

theorem Building.append {p : NetPacket} (h : Building p) (hhead : 8 ≤ p.wpos) {src : List UInt8}
    (hle : (src.length : Int) ≤ needsize p ∨ src = []) : Building (p.append src) := by
  have hmark := NetPacket.getMarkLen_append p src hhead
  have hstorage : (p.append src).storage.length = p.storage.length + src.length :=
    p.toByteBuffer.append_storage_length src
  refine ⟨h.rpos_eq, ?_, ?_⟩
  · have := h.storage_eq
    rw [hstorage, BasePacket.append_wpos]
    omega
  · rw [hmark, BasePacket.append_wpos]
    rcases hle with hle | hnil
    · -- a positive `needsize` is what the mark leaves
      have hbounds := toInt32_bounds (p.getValue MSG_LEN_POS 4)
      have hwpos := h.wpos_le
      rw [needsize, toInt32_toSizeT] at hle
      unfold NetPacket.getMarkLen toInt32 at *
      simp only [MSG_HEAD_SIZE] at *
      omega
    · rw [hnil]
      exact h.wpos_le

theorem Building.handed {p : NetPacket} (h : Building p) (hhead : 8 ≤ p.wpos) : Handed p := by
  have hbounds := toInt32_bounds (p.getValue MSG_LEN_POS 4)
  have hstorage := h.storage_eq
  have hwpos := h.wpos_le
  refine ⟨h.rpos_eq, hhead, by omega, ?_⟩
  change p.wpos ≤ 8 ∨ (p.wpos : Int) ≤ toInt32 (p.getValue MSG_LEN_POS 4) + 8 at hwpos
  omega

/-! ## 2. Packets that are handed to `onMsg` -/

/-- What every turn of the loop keeps. -/
structure Sound (c : NetConnect) : Prop where
  building : ∀ p, c.mReadPacket = some p → Building p
  handed : ∀ m ∈ c.calls, Handed m.packet

theorem fresh_sound : Sound fresh := by
  refine ⟨?_, ?_⟩
  · intro p hp
    cases hp
  · intro m hm
    cases hm

theorem Sound.turn {c : NetConnect} (h : Sound c) (bs : List UInt8) :
    Sound (netReader.turn c bs).1 := by
  obtain ⟨p, hp⟩ : ∃ p : NetPacket, c.1.getD netReader.create = p := ⟨_, rfl⟩
  have hbuilding : Building p := by
    cases hc : c.1 with
    | none =>
      rw [hc] at hp
      exact hp ▸ beginPacket_building
    | some q =>
      rw [hc] at hp
      exact hp ▸ h.building q hc
  cases hh : p.isHeadFull with
  | false =>
    have hw := (NetPacket.isHeadFull_eq_false_iff p).mp hh
    have hread : (netReader.readHead p bs).1 = p.fill (bs.take (min (8 - p.wpos) bs.length)) := by
      simp only [netReader, PacketOps.reader, packetOps, NetPacket.readHead_eq p hw]
    rw [PacketReader.turn_head (R := netReader) hp hh]
    refine ⟨?_, h.handed⟩
    intro q hq
    obtain rfl := Option.some.inj hq
    rw [hread]
    apply hbuilding.fill
    rw [List.length_take]
    omega
  | true =>
    have hw := (NetPacket.isHeadFull_iff p).mp hh
    obtain ⟨k, hk⟩ : ∃ k, min (needsize p).toNat bs.length = k := ⟨_, rfl⟩
    have hgrown : Building (p.append (bs.take k)) := by
      apply hbuilding.append hw
      by_cases hzero : k = 0
      · exact .inr (by rw [hzero, List.take_zero])
      · rw [List.length_take]
        omega
    rw [PacketReader.turn_body (R := netReader) hp hh bs hk]
    by_cases hc : netReader.complete (netReader.append p (bs.take k)) = true
    · rw [if_pos hc]
      refine ⟨?_, ?_⟩
      · intro q hq
        cases hq
      intro m hm
      rcases List.mem_append.mp hm with hm | hm
      · exact h.handed m hm
      · obtain rfl := List.mem_singleton.mp hm
        apply hgrown.handed
        rw [BasePacket.append_wpos]
        omega
    · rw [if_neg hc]
      refine ⟨?_, h.handed⟩
      intro q hq
      cases hq
      exact hgrown

variable {size : UInt32}

/-- At every turn of the loop on a read, whatever has been received before. -/
theorem sound_of_turns {rs : List (Read size)} {s : TcpSocketBase size NetConnect}
    (hs : EchoReads onMsgbuffer (TcpSocketBase.fresh size fresh) rs s) (r : Read size)
    {q : NetConnect × MessageBuffer size}
    (hq : Turns (fun q => decide (0 < q.2.getActiveSize)) onMsgbufferBody
      (s.derived, s.mBuffer.receive r) q) : Sound q.1 := by
  have hrest : s.AtRest := hs.atRest (TcpSocketBase.fresh_atRest fresh)
  have hbounds : (s.mBuffer.receive r).InBounds := hrest ▸ s.mBuffer.receive_inBounds r
  have hsofar : Feeds netReader.turn fresh (rs.map Read.bytes).flatten s.derived :=
    (echoReads_cut_iff onMsgbuffer_implements netReader_lawful.resumable fresh s.derived
      ⟨rs, rfl⟩).mp ⟨s, hs, rfl⟩
  have hsound : Sound s.derived :=
    hsofar.invariant (I := Sound) (fun _ bs _ h => h.turn bs) fresh_sound
  have hkeep : ∀ q : NetConnect × MessageBuffer size, q.2.InBounds ∧ Sound q.1 →
      decide (0 < q.2.getActiveSize) = true →
      (onMsgbufferBody q).2.InBounds ∧ Sound (onMsgbufferBody q).1 := by
    intro q hq hc
    obtain ⟨k, hk, hbody, -⟩ := onMsgbuffer_implements q.1 q.2 hq.1 (by simpa using hc)
    rw [show q = (q.1, q.2) from rfl, hbody]
    exact ⟨hq.1.readCompleted hk, hq.2.turn _⟩
  exact (hq.invariant hkeep ⟨hbounds, hsound⟩).2

/-! ## 3. Getters of the handler -/

theorem Handed.filled {p : NetPacket} (h : Handed p) : PacketReads.Filled ⟨p, []⟩ := by
  refine ⟨h.wpos_eq, ?_⟩
  have hrpos := h.rpos_eq
  have hlt := h.body_lt
  change p.wpos - p.rpos < 2 ^ 31
  omega

theorem Handed.inside {p : NetPacket} (h : Handed p) : PacketReads.Inside ⟨p, []⟩ := by
  apply h.filled.inside_iff.mpr
  refine ⟨?_, ?_⟩
  · intro v hv
    cases hv
  · have hrpos := h.rpos_eq
    have hle := h.head_le
    change p.rpos ≤ p.wpos
    omega

/-- The getters that a handler calls on its packet, in any order, read inside the packet and keep
its cursors in order exactly when every number that is read is there. -/
theorem getters_inside_iff {rs : List (Read size)} {s : TcpSocketBase size NetConnect}
    (hs : EchoReads onMsgbuffer (TcpSocketBase.fresh size fresh) rs s) (r : Read size)
    {q : NetConnect × MessageBuffer size}
    (hq : Turns (fun q => decide (0 < q.2.getActiveSize)) onMsgbufferBody
      (s.derived, s.mBuffer.receive r) q) {m : OnMsg} (hm : m ∈ q.1.calls) (gs : List Getter) :
    Always PacketReads.Inside Getter.step ⟨m.packet, []⟩ gs ↔
      Meets (fun s g => Getter.Fits s g) Getter.step ⟨m.packet, []⟩ gs := by
  have hhanded := (sound_of_turns hs r hq).handed m hm
  exact Getter.always_inside_iff hhanded.filled hhanded.inside gs

/-- A message of type 7 with one byte in its body. -/
def oneByteRead : Read MESSAGE_BUFFER_SIZE where
  bytes := [1, 0, 0, 0, 7, 0, 0, 0, 104]
  ne_nil := by decide
  length_le := by decide

/-- The connection when the loop has been through that message. -/
def oneByteTurns : NetConnect × MessageBuffer MESSAGE_BUFFER_SIZE :=
  onMsgbufferBody (onMsgbufferBody (fresh, (MessageBuffer.create _).receive oneByteRead))

def oneByteMessage : OnMsg := call [1, 0, 0, 0, 7, 0, 0, 0] [104]

theorem oneByteTurns_turns :
    Turns (fun q => decide (0 < q.2.getActiveSize)) onMsgbufferBody
      (fresh, (MessageBuffer.create MESSAGE_BUFFER_SIZE).receive oneByteRead) oneByteTurns :=
  .turn rfl (.turn rfl (.here _))

theorem oneByteMessage_mem : oneByteMessage ∈ oneByteTurns.1.calls := by
  decide

/-- A message of type 7 with a byte, an `int32`, a `uint16`, a text and two bytes more, and the
connection when the loop has been through it. -/
def mixedRead : Read MESSAGE_BUFFER_SIZE where
  bytes := [12, 0, 0, 0, 7, 0, 0, 0, 5, 255, 255, 255, 255, 2, 1, 104, 105, 0, 3, 4]
  ne_nil := by decide
  length_le := by decide

def mixedTurns : NetConnect × MessageBuffer MESSAGE_BUFFER_SIZE :=
  onMsgbufferBody (onMsgbufferBody (fresh, (MessageBuffer.create _).receive mixedRead))

def mixedMessage : OnMsg :=
  call [12, 0, 0, 0, 7, 0, 0, 0] [5, 255, 255, 255, 255, 2, 1, 104, 105, 0, 3, 4]

theorem mixedTurns_turns :
    Turns (fun q => decide (0 < q.2.getActiveSize)) onMsgbufferBody
      (fresh, (MessageBuffer.create MESSAGE_BUFFER_SIZE).receive mixedRead) mixedTurns :=
  .turn rfl (.turn rfl (.here _))

/-- The numbers and the text in turn, and a view of the two bytes that are left. -/
theorem getters_inside_iff_mixed :
    mixedMessage ∈ mixedTurns.1.calls ∧
      Always PacketReads.Inside Getter.step ⟨mixedMessage.packet, []⟩
        [.getUint8, .getInt32, .getUint16, .getString, .readData] := by
  have hnone : EchoReads onMsgbuffer (TcpSocketBase.fresh MESSAGE_BUFFER_SIZE fresh) []
      (TcpSocketBase.fresh MESSAGE_BUFFER_SIZE fresh) := rfl
  have hmem : mixedMessage ∈ mixedTurns.1.calls := by decide
  have hallowed : Allowed (fun s g => Getter.Fits s g) Getter.step ⟨mixedMessage.packet, []⟩
      [.getUint8, .getInt32, .getUint16, .getString, .readData] := by decide
  exact ⟨hmem, (getters_inside_iff hnone mixedRead mixedTurns_turns hmem _).mpr hallowed.meets⟩

/-- `getInt32` on a message of type 7 with one byte in its body: three bytes are read behind the
storage, `activeSize()` is negative afterwards and `readData()` a view of almost `2 ^ 64` bytes. -/
theorem getInt32_leaves_packet :
    ∃ q : NetConnect × MessageBuffer MESSAGE_BUFFER_SIZE,
      Turns (fun q => decide (0 < q.2.getActiveSize)) onMsgbufferBody
        (fresh, (MessageBuffer.create MESSAGE_BUFFER_SIZE).receive oneByteRead) q ∧
      ∃ m ∈ q.1.calls, m.packet.storage.length = 9 ∧
        ¬ Always PacketReads.Inside Getter.step ⟨m.packet, []⟩ [.getInt32] ∧
        Getter.getInt32.span m.packet = ⟨8, 4⟩ ∧
        (Getter.getInt32.after m.packet).activeSize = -3 ∧
        (Getter.getInt32.after m.packet).readData.len = 2 ^ 64 - 3 := by
  refine ⟨oneByteTurns, oneByteTurns_turns, oneByteMessage, oneByteMessage_mem, rfl, ?_, by decide,
    by decide, by decide⟩
  intro halways
  have hinside := (halways.2 _ rfl).head
  exact absurd hinside.rpos_le (by decide)

end NetConnect

end LuaServer
