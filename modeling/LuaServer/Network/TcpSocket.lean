import LuaServer.Common.ByteBuffer
import LuaServer.Reasoning.Transition

/-!
# TcpSocket — the send queue of a socket

`write` puts a packet at the end of `mSendPackets`; `send_top_msg` describes the first packets in
`mSending` and hands them to one `uv_write`; `on_writecomplete` recycles the packets that `mSending`
describes and sends the next ones.  The state also keeps what libuv and the allocator see: the
requests that have not completed, the buffers handed over and the packets written and recycled.
-/

open Reasoning

namespace LuaServer

/-- A packet on the heap: no two packets that are written share the address. -/
structure HeapPacket where
  address : Nat
  data : SendData
deriving DecidableEq

structure UvBuf where
  base : HeapPacket
  len : Nat
deriving DecidableEq

-- the bytes that `uv_write` sends for the buffer
def UvBuf.bytes (b : UvBuf) : List UInt8 := b.base.data.sendStream.take b.len

namespace HeapPacket

def buf (p : HeapPacket) : UvBuf := ⟨p, toSizeT p.data.sendSize⟩

def bytes (p : HeapPacket) : List UInt8 := p.buf.bytes

end HeapPacket

abbrev MAX_SEND_PACKET : Nat := 10

abbrev MAX_SEND_BYTE : Int := 1024

structure TcpSocket where
  mSending : List UvBuf
  mSendPackets : List HeapPacket
  -- requests on `m_write_t` that have not completed
  outstanding : List (List UvBuf)
  -- all buffers handed to `uv_write`, all packets given to `write`, all addresses recycled
  handed : List UvBuf
  written : List HeapPacket
  recycled : List Nat
deriving DecidableEq

/-- What can happen to a socket: a packet is written, or the oldest request completes. -/
inductive SendAction
  | write (data : SendData)
  | complete
deriving DecidableEq

namespace TcpSocket

def fresh : TcpSocket := ⟨[], [], [], [], [], []⟩

def isSending (s : TcpSocket) : Bool := !s.mSending.isEmpty

/-- `TcpSocketBase::write`: `uv_write`, which is taken to succeed. -/
def uvWrite (s : TcpSocket) (bufs : List UvBuf) : TcpSocket :=
  { s with outstanding := s.outstanding ++ [bufs], handed := s.handed ++ bufs }

/-- The loop of `send_top_msg` over the packets, with `sumsize` and `mSending`. -/
def collect : List HeapPacket → Int → List UvBuf → Int × List UvBuf
  | [], sumsize, sending => (sumsize, sending)
  | p :: ps, sumsize, sending =>
    if MAX_SEND_BYTE ≤ sumsize then (sumsize, sending)
    else if MAX_SEND_PACKET ≤ sending.length then (sumsize, sending)
    else collect ps (toInt32 (sumsize + p.data.sendSize)) (sending ++ [p.buf])

def sendTopMsg (s : TcpSocket) : TcpSocket :=
  let r := collect s.mSendPackets 0 s.mSending
  let s' := { s with mSending := r.2 }
  if 0 < r.1 then s'.uvWrite s'.mSending else s'

/-- `write` of a packet that has just been allocated. -/
def write (s : TcpSocket) (data : SendData) : TcpSocket :=
  let p : HeapPacket := ⟨s.written.length, data⟩
  let s' := { s with mSendPackets := s.mSendPackets ++ [p], written := s.written ++ [p] }
  if s'.isSending = false then s'.sendTopMsg else s'

/-- `recyclePacket(front()); pop_front()`, `n` times. -/
def recycleFront : Nat → TcpSocket → TcpSocket
  | 0, s => s
  | n + 1, s =>
    match s.mSendPackets with
    -- `front()` of an empty list is undefined; `mSending` never describes more than there is
    | [] => s
    | p :: ps => recycleFront n { s with mSendPackets := ps, recycled := s.recycled ++ [p.address] }

def onWritecomplete (s : TcpSocket) : TcpSocket :=
  let s' := recycleFront s.mSending.length s
  sendTopMsg { s' with mSending := [] }

/-- One step of the socket; a completion needs a request that has not completed. -/
def step (s : TcpSocket) : SendAction → Option TcpSocket
  | .write data => some (s.write data)
  | .complete =>
    match s.outstanding with
    | [] => none
    | _ :: rest => some (onWritecomplete { s with outstanding := rest })

/-! ## 1. One call -/

/-- The sum of the sizes in the `int` of the code. -/
def sumsize (ps : List HeapPacket) : Int := toInt32 (ps.map fun p => p.data.sendSize).sum

/-- The packets whose sizes make `send_top_msg` call `uv_write`: the sum reaches the limit on the
way or is positive over the packets of one request. -/
def Sendable (ps : List HeapPacket) : Prop :=
  (∃ k ≤ MAX_SEND_PACKET, MAX_SEND_BYTE ≤ sumsize (ps.take k)) ∨
    0 < sumsize (ps.take MAX_SEND_PACKET)

theorem sumsize_nil : sumsize [] = 0 := rfl

theorem sumsize_singleton (p : HeapPacket) : sumsize [p] = p.data.sendSize := by
  rw [sumsize, List.map_singleton, List.sum_singleton, toInt32_of_bounds p.data.lo p.data.hi]

theorem sendable_singleton_iff (p : HeapPacket) : Sendable [p] ↔ 0 < p.data.sendSize := by
  constructor
  · rintro (⟨k, -, hk⟩ | hpos)
    · cases k with
      | zero => exact absurd hk (by rw [List.take_zero, sumsize_nil]; decide)
      | succ k =>
        rw [List.take_succ_cons, List.take_nil, sumsize_singleton] at hk
        simp only [MAX_SEND_BYTE] at hk
        omega
    · rwa [List.take_succ_cons, List.take_nil, sumsize_singleton] at hpos
  · intro h
    exact .inr (by rwa [List.take_succ_cons, List.take_nil, sumsize_singleton])

theorem not_sendable_nil : ¬ Sendable [] := by
  rintro (⟨k, -, hk⟩ | hpos)
  · rw [List.take_nil, sumsize_nil] at hk
    exact absurd hk (by decide)
  · exact absurd hpos (by decide)

theorem collect_sending (ps : List HeapPacket) (sum : Int) (sending : List UvBuf) :
    ∃ k ≤ ps.length, (collect ps sum sending).2 = sending ++ (ps.take k).map HeapPacket.buf ∧
      (ps ≠ [] → sum < MAX_SEND_BYTE → sending.length < MAX_SEND_PACKET → 0 < k) := by
  -- the loop stops at one of its two limits or takes one more packet
  induction ps generalizing sum sending with
  | nil => exact ⟨0, le_refl _, by simp [collect], fun h => absurd rfl h⟩
  | cons p ps ih =>
    rw [collect]
    by_cases hsum : MAX_SEND_BYTE ≤ sum
    · rw [if_pos hsum]
      exact ⟨0, Nat.zero_le _, by simp, fun _ h => absurd hsum (by omega)⟩
    rw [if_neg hsum]
    by_cases hroom : MAX_SEND_PACKET ≤ sending.length
    · rw [if_pos hroom]
      exact ⟨0, Nat.zero_le _, by simp, fun _ _ h => absurd hroom (by omega)⟩
    rw [if_neg hroom]
    obtain ⟨k, hk, hsending, -⟩ := ih (toInt32 (sum + p.data.sendSize)) (sending ++ [p.buf])
    refine ⟨k + 1, by simpa using hk, ?_, fun _ _ _ => Nat.succ_pos k⟩
    rw [hsending, List.take_succ_cons, List.map_cons, List.append_assoc]
    rfl

theorem collect_pos_iff_from (ps : List HeapPacket) (room : Nat) {sum : Int}
    {sending : List UvBuf}
    (hlo : -2 ^ 31 ≤ sum) (hhi : sum < 2 ^ 31) (hroom : sending.length + room = MAX_SEND_PACKET) :
    0 < (collect ps sum sending).1 ↔
      (∃ k ≤ room, MAX_SEND_BYTE ≤
          toInt32 (sum + ((ps.take k).map fun p => p.data.sendSize).sum)) ∨
        0 < toInt32 (sum + ((ps.take room).map fun p => p.data.sendSize).sum) := by
  have hsum : toInt32 (sum + 0) = sum := by rw [add_zero, toInt32_of_bounds hlo hhi]
  induction ps generalizing sum sending room with
  | nil =>
    simp only [collect, List.take_nil, List.map_nil, List.sum_nil, hsum]
    simp only [MAX_SEND_BYTE]
    constructor
    · exact .inr
    · rintro (⟨-, -, h⟩ | h) <;> omega
  | cons p ps ih =>
    rw [collect]
    -- the sum has reached the limit before this packet
    by_cases hfull : MAX_SEND_BYTE ≤ sum
    · rw [if_pos hfull]
      refine iff_of_true (by simp only [MAX_SEND_BYTE] at hfull; omega)
        (.inl ⟨0, Nat.zero_le _, ?_⟩)
      rwa [List.take_zero, List.map_nil, List.sum_nil, hsum]
    rw [if_neg hfull]
    -- the request is full, or has room for this packet
    cases room with
    | zero =>
      rw [if_pos (by omega)]
      simp only [List.take_zero, List.map_nil, List.sum_nil, hsum, MAX_SEND_BYTE]
      constructor
      · exact .inr
      · rintro (⟨k, hk, h⟩ | h)
        · rw [Nat.le_zero.mp hk, List.take_zero, List.map_nil, List.sum_nil, hsum] at h
          omega
        · exact h
    | succ room =>
      rw [if_neg (by omega)]
      obtain ⟨hlo', hhi'⟩ := toInt32_bounds (sum + p.data.sendSize)
      have hroom' : (sending ++ [p.buf]).length + room = MAX_SEND_PACKET := by
        rw [List.length_append, List.length_singleton]
        omega
      have hsum' : toInt32 (toInt32 (sum + p.data.sendSize) + 0) =
          toInt32 (sum + p.data.sendSize) := by rw [add_zero, toInt32_of_bounds hlo' hhi']
      refine (ih room hlo' hhi' hroom' hsum').trans ?_
      simp only [toInt32_add_toInt32, List.take_succ_cons, List.map_cons, List.sum_cons, add_assoc]
      refine or_congr_left ⟨?_, ?_⟩
      · rintro ⟨k, hk, h⟩
        exact ⟨k + 1, by omega, by simpa [add_assoc] using h⟩
      · rintro ⟨k, hk, h⟩
        cases k with
        | zero =>
          rw [List.take_zero, List.map_nil, List.sum_nil, hsum] at h
          exact absurd h hfull
        | succ k => exact ⟨k, by omega, by simpa [add_assoc] using h⟩

theorem collect_pos_iff (ps : List HeapPacket) : 0 < (collect ps 0 []).1 ↔ Sendable ps := by
  rw [collect_pos_iff_from ps MAX_SEND_PACKET (by decide) (by decide) rfl]
  simp only [zero_add]
  rfl

theorem sendTopMsg_cases {s : TcpSocket} (h : s.mSending = []) :
    ∃ k ≤ s.mSendPackets.length, (s.mSendPackets ≠ [] → 0 < k) ∧
      (Sendable s.mSendPackets ∧ s.sendTopMsg =
          { s with mSending := (s.mSendPackets.take k).map HeapPacket.buf }.uvWrite
            ((s.mSendPackets.take k).map HeapPacket.buf) ∨
        ¬ Sendable s.mSendPackets ∧ s.sendTopMsg =
          { s with mSending := (s.mSendPackets.take k).map HeapPacket.buf }) := by
  obtain ⟨k, hk, hsending, hpos⟩ := collect_sending s.mSendPackets 0 []
  refine ⟨k, hk, fun hne => hpos hne (by decide) (by decide), ?_⟩
  rw [List.nil_append] at hsending
  rw [← collect_pos_iff, sendTopMsg, h]
  by_cases hsum : 0 < (collect s.mSendPackets 0 []).1
  · exact .inl ⟨hsum, by simp only [if_pos hsum, hsending]⟩
  · exact .inr ⟨hsum, by simp only [if_neg hsum, hsending]⟩

theorem recycleFront_eq (n : Nat) (s : TcpSocket) :
    recycleFront n s = { s with
      mSendPackets := s.mSendPackets.drop n
      recycled := s.recycled ++ (s.mSendPackets.take n).map HeapPacket.address } := by
  induction n generalizing s with
  | zero => simp [recycleFront]
  | succ n ih =>
    rw [recycleFront]
    cases hs : s.mSendPackets with
    | nil => cases s; cases hs; simp
    | cons p ps => simp [ih]

/-! ## 2. The invariant -/

/-- The packets written are those recycled, in order, and those still queued; the buffers handed
over are those of the packets recycled and those of the request that has not completed. -/
structure Inv (s : TcpSocket) : Prop where
  sending : s.mSending = (s.mSendPackets.take s.mSending.length).map HeapPacket.buf
  outstanding : s.outstanding = [] ∨ s.mSending ≠ [] ∧ s.outstanding = [s.mSending]
  idle : s.mSending = [] → s.mSendPackets = []
  history : ∃ done, s.written = done ++ s.mSendPackets ∧ s.recycled = done.map HeapPacket.address ∧
    s.handed = done.map HeapPacket.buf ++ s.outstanding.flatten
  address : s.written.map HeapPacket.address = List.range s.written.length

theorem Inv.sending_le {s : TcpSocket} (h : s.Inv) :
    s.mSending.length ≤ s.mSendPackets.length := by
  have hlen := congrArg List.length h.sending
  rw [List.length_map, List.length_take] at hlen
  omega

theorem fresh_inv : fresh.Inv :=
  ⟨rfl, .inl rfl, fun _ => rfl, ⟨[], rfl, rfl, rfl⟩, rfl⟩

theorem sendTopMsg_inv {s : TcpSocket} (hsending : s.mSending = []) (hout : s.outstanding = [])
    (hhistory : ∃ done, s.written = done ++ s.mSendPackets ∧
      s.recycled = done.map HeapPacket.address ∧ s.handed = done.map HeapPacket.buf)
    (haddress : s.written.map HeapPacket.address = List.range s.written.length) :
    s.sendTopMsg.Inv := by
  obtain ⟨k, hk, hpos, hcases⟩ := sendTopMsg_cases hsending
  obtain ⟨done, hwritten, hrecycled, hhanded⟩ := hhistory
  have hlen : ((s.mSendPackets.take k).map HeapPacket.buf).length = k := by
    rw [List.length_map, List.length_take, Nat.min_eq_left hk]
  -- at least one packet of a queue that is not empty is taken
  have hidle : (s.mSendPackets.take k).map HeapPacket.buf = [] → s.mSendPackets = [] := by
    intro hnil
    by_contra hne
    have hzero := hlen
    rw [hnil, List.length_nil] at hzero
    exact absurd (hpos hne) (by omega)
  rcases hcases with ⟨hsend, heq⟩ | ⟨-, heq⟩
  · rw [heq]
    have hne : s.mSendPackets ≠ [] := fun hnil => not_sendable_nil (hnil ▸ hsend)
    refine ⟨?_, .inr ⟨fun hnil => hne (hidle hnil), ?_⟩, hidle, ⟨done, hwritten, hrecycled, ?_⟩,
      haddress⟩
    · show (s.mSendPackets.take k).map HeapPacket.buf = _
      simp only [uvWrite, hlen]
    · show s.outstanding ++ [_] = [_]
      rw [hout]
      rfl
    · show s.handed ++ _ = _ ++ (s.outstanding ++ [_]).flatten
      rw [hhanded, hout, List.nil_append, List.flatten_singleton]
  · rw [heq]
    refine ⟨?_, .inl hout, hidle, ⟨done, hwritten, hrecycled, ?_⟩, haddress⟩
    · show (s.mSendPackets.take k).map HeapPacket.buf = _
      simp only [hlen]
    · show s.handed = _ ++ s.outstanding.flatten
      rw [hhanded, hout, List.flatten_nil, List.append_nil]

def pushed (s : TcpSocket) (data : SendData) : TcpSocket :=
  { s with
    mSendPackets := s.mSendPackets ++ [⟨s.written.length, data⟩]
    written := s.written ++ [⟨s.written.length, data⟩] }

def drained (s : TcpSocket) : TcpSocket :=
  { s with
    mSending := []
    mSendPackets := s.mSendPackets.drop s.mSending.length
    outstanding := []
    recycled := s.recycled ++ (s.mSendPackets.take s.mSending.length).map HeapPacket.address }

theorem step_cases {s t : TcpSocket} {a : SendAction} (hs : s.Inv) (h : s.step a = some t) :
    (∃ data, a = .write data ∧ s.mSending ≠ [] ∧ t = s.pushed data) ∨
      (∃ data, a = .write data ∧ s.mSending = [] ∧ t = (s.pushed data).sendTopMsg) ∨
      a = .complete ∧ s.outstanding = [s.mSending] ∧ t = s.drained.sendTopMsg := by
  cases a with
  | write data =>
    obtain rfl : s.write data = t := Option.some.inj h
    by_cases hsending : s.mSending = []
    · refine .inr (.inl ⟨data, rfl, hsending, ?_⟩)
      simp [write, isSending, hsending, pushed]
    · refine .inl ⟨data, rfl, hsending, ?_⟩
      simp [write, isSending, hsending, pushed]
  | complete =>
    refine .inr (.inr ⟨rfl, ?_⟩)
    -- a completion needs a request, and the invariant says which one it is
    rcases hs.outstanding with hout | ⟨-, hout⟩
    · rw [step, hout] at h
      cases h
    · rw [step, hout] at h
      refine ⟨hout, (Option.some.inj h).symm.trans ?_⟩
      rw [onWritecomplete, recycleFront_eq]
      rfl

theorem pushed_address {s : TcpSocket} (hs : s.Inv) (data : SendData) :
    (s.pushed data).written.map HeapPacket.address = List.range (s.pushed data).written.length := by
  simp only [pushed, List.map_append, hs.address, List.length_append, List.map_cons, List.map_nil,
    List.length_cons, List.length_nil, List.range_succ]

theorem step_inv {s t : TcpSocket} {a : SendAction} (hs : s.Inv) (h : s.step a = some t) :
    t.Inv := by
  obtain ⟨done, hwritten, hrecycled, hhanded⟩ := hs.history
  rcases step_cases hs h with ⟨data, -, hsending, rfl⟩ | ⟨data, -, hsending, rfl⟩ | ⟨-, hout, rfl⟩
  · -- the packet waits behind those being sent
    refine ⟨?_, hs.outstanding, fun hnil => absurd hnil hsending, ⟨done, ?_, hrecycled, hhanded⟩,
      pushed_address hs data⟩
    · show s.mSending = ((s.mSendPackets ++ [_]).take s.mSending.length).map _
      rw [List.take_append_of_le_length hs.sending_le, ← hs.sending]
    · show s.written ++ [_] = _ ++ (s.mSendPackets ++ [_])
      rw [hwritten, List.append_assoc]
  · -- the packet is sent at once
    have hout : s.outstanding = [] := hs.outstanding.resolve_right fun hout => hout.1 hsending
    refine sendTopMsg_inv hsending hout ⟨done, ?_, hrecycled, ?_⟩ (pushed_address hs data)
    · show s.written ++ [_] = _ ++ (s.mSendPackets ++ [_])
      rw [hwritten, List.append_assoc]
    · show s.handed = _
      rw [hhanded, hout, List.flatten_nil, List.append_nil]
  · refine sendTopMsg_inv rfl rfl ⟨done ++ s.mSendPackets.take s.mSending.length, ?_, ?_, ?_⟩
      hs.address
    · show s.written = _ ++ s.mSendPackets.drop _
      rw [hwritten, List.append_assoc, List.take_append_drop]
    · show s.recycled ++ _ = _
      rw [hrecycled, List.map_append]
    · show s.handed = _
      rw [hhanded, hout, List.flatten_singleton, List.map_append, ← hs.sending]

theorem reachable_inv {s : TcpSocket} (h : Reachable step fresh s) : s.Inv :=
  h.invariant (fun _ _ _ hs hstep => step_inv hs hstep) fresh_inv

/-! ## 3. Nothing is lost, repeated or freed too early -/

/-- (a) one request at a time, (b) the buffers handed over are the first packets written, in order,
(c) `mSending` describes the front of the queue, (d) a packet is recycled once and not while a
request that has not completed points to it. -/
structure Safe (s : TcpSocket) : Prop where
  one_request : s.outstanding.length ≤ 1
  handed_prefix : s.handed <+: s.written.map HeapPacket.buf
  bytes_prefix : (s.handed.map UvBuf.bytes).flatten <+: (s.written.map HeapPacket.bytes).flatten
  sending_le : s.mSending.length ≤ s.mSendPackets.length
  sending : s.mSending = (s.mSendPackets.take s.mSending.length).map HeapPacket.buf
  recycled_nodup : s.recycled.Nodup
  not_recycled : ∀ request ∈ s.outstanding, ∀ b ∈ request, b.base.address ∉ s.recycled

theorem Inv.handed_prefix {s : TcpSocket} (h : s.Inv) :
    s.handed <+: s.written.map HeapPacket.buf := by
  obtain ⟨done, hwritten, -, hhanded⟩ := h.history
  rw [hwritten, hhanded, List.map_append, List.prefix_append_right_inj]
  rcases h.outstanding with hout | ⟨-, hout⟩
  · rw [hout]
    exact List.nil_prefix
  · rw [hout, List.flatten_singleton, h.sending]
    exact (List.take_prefix _ _).map _

theorem Inv.not_recycled {s : TcpSocket} (h : s.Inv) {p : HeapPacket} (hp : p ∈ s.mSendPackets) :
    p.address ∉ s.recycled := by
  obtain ⟨done, hwritten, hrecycled, -⟩ := h.history
  -- the addresses are numbered by `write`, so the written packets have different ones
  have hnodup : (s.written.map HeapPacket.address).Nodup := h.address ▸ List.nodup_range
  rw [hwritten, List.map_append, List.nodup_append] at hnodup
  rw [hrecycled]
  intro hmem
  exact hnodup.2.2 _ hmem _ (List.mem_map_of_mem hp) rfl

theorem Inv.safe {s : TcpSocket} (h : s.Inv) : s.Safe where
  one_request := by
    rcases h.outstanding with hout | ⟨-, hout⟩ <;> rw [hout] <;> simp
  handed_prefix := h.handed_prefix
  bytes_prefix := by
    have hmap : s.written.map HeapPacket.bytes =
        (s.written.map HeapPacket.buf).map UvBuf.bytes := by
      rw [List.map_map]
      rfl
    obtain ⟨rest, hrest⟩ := h.handed_prefix
    rw [hmap, ← hrest, List.map_append, List.flatten_append]
    exact List.prefix_append _ _
  sending_le := h.sending_le
  sending := h.sending
  recycled_nodup := by
    obtain ⟨done, hwritten, hrecycled, -⟩ := h.history
    have hnodup : (s.written.map HeapPacket.address).Nodup := h.address ▸ List.nodup_range
    rw [hwritten, List.map_append, List.nodup_append] at hnodup
    exact hrecycled ▸ hnodup.1
  not_recycled := by
    intro request hrequest b hb
    rcases h.outstanding with hout | ⟨-, hout⟩
    · rw [hout] at hrequest
      cases hrequest
    · rw [hout, List.mem_singleton] at hrequest
      rw [hrequest, h.sending] at hb
      obtain ⟨p, hp, rfl⟩ := List.mem_map.mp hb
      exact h.not_recycled (List.mem_of_mem_take hp)

theorem send_queue_safe {s : TcpSocket} (h : Reachable step fresh s) : s.Safe :=
  (reachable_inv h).safe

theorem send_queue_safe_two :
    ∃ s, run step fresh [.write ⟨[1], 1, by decide, by decide⟩,
        .write ⟨[2], 1, by decide, by decide⟩, .complete] = some s ∧
      s.recycled = [0] ∧ s.outstanding ≠ [] ∧ s.Safe := by
  have hrun : run step fresh [.write ⟨[1], 1, by decide, by decide⟩,
    .write ⟨[2], 1, by decide, by decide⟩, .complete] = some _ := rfl
  exact ⟨_, hrun, rfl, by decide, send_queue_safe ⟨_, hrun⟩⟩

/-! ## 4. When the queue goes on -/

/-- Nothing waits to be sent, or a request is under way; and the socket says that it is sending
only when there is a request. -/
def NotStalled (s : TcpSocket) : Prop :=
  ((∀ p ∈ s.mSendPackets, p.bytes = []) ∨ s.outstanding ≠ []) ∧
    (s.isSending = true → s.outstanding ≠ [])

/-- A packet written to a socket that is not sending has bytes, and when a request completes the
packets behind it are none or make the next request. -/
def Feeding (s : TcpSocket) : SendAction → Prop
  | .write data => s.isSending = false → 0 < data.sendSize
  | .complete =>
    s.mSendPackets.drop s.mSending.length = [] ∨ Sendable (s.mSendPackets.drop s.mSending.length)

theorem isSending_iff {s : TcpSocket} : s.isSending = true ↔ s.mSending ≠ [] := by
  cases h : s.mSending <;> simp [isSending, h]

theorem sendTopMsg_notStalled_iff {s : TcpSocket} (hsending : s.mSending = [])
    (hout : s.outstanding = []) :
    s.sendTopMsg.NotStalled ↔ s.mSendPackets = [] ∨ Sendable s.mSendPackets := by
  obtain ⟨k, hk, hpos, ⟨hsend, heq⟩ | ⟨hsend, heq⟩⟩ := sendTopMsg_cases hsending
  · have hne : s.sendTopMsg.outstanding ≠ [] := by
      rw [heq]
      show s.outstanding ++ [_] ≠ []
      simp
    exact iff_of_true ⟨.inr hne, fun _ => hne⟩ (.inr hsend)
  · -- without `uv_write` the socket is in order only when nothing was taken
    have hnone : s.sendTopMsg.outstanding = [] := by rw [heq]; exact hout
    constructor
    · rintro ⟨-, himp⟩
      apply Or.inl
      by_contra hne
      refine himp (isSending_iff.mpr ?_) hnone
      rw [heq]
      show (s.mSendPackets.take k).map HeapPacket.buf ≠ []
      have := hpos hne
      intro hnil
      have hlen := congrArg List.length hnil
      rw [List.length_map, List.length_take, Nat.min_eq_left hk, List.length_nil] at hlen
      omega
    · rintro (hnil | hsend')
      · refine ⟨.inl ?_, fun hs => absurd (isSending_iff.mp hs) ?_⟩
        · rw [heq]
          show ∀ p ∈ s.mSendPackets, _
          rw [hnil]
          simp
        · rw [heq]
          show ¬ (s.mSendPackets.take k).map HeapPacket.buf ≠ []
          rw [hnil]
          simp
      · exact absurd hsend' hsend

/-- A step from a state in which the queue goes on leads to such a state exactly when it feeds the
queue. -/
theorem step_notStalled_iff {s t : TcpSocket} {a : SendAction} (hs : s.Inv) (hgood : s.NotStalled)
    (h : s.step a = some t) : t.NotStalled ↔ s.Feeding a := by
  rcases step_cases hs h with ⟨data, rfl, hsending, rfl⟩ | ⟨data, rfl, hsending, rfl⟩ |
    ⟨rfl, -, rfl⟩
  · have hout : s.outstanding ≠ [] := hgood.2 (isSending_iff.mpr hsending)
    refine iff_of_true ⟨.inr hout, fun _ => hout⟩ fun hidle => ?_
    rw [isSending_iff.mpr hsending] at hidle
    cases hidle
  · have hout : s.outstanding = [] := hs.outstanding.resolve_right fun hout => hout.1 hsending
    -- an idle socket has an empty queue, so the packet stands alone
    have hqueue : (s.pushed data).mSendPackets = [⟨s.written.length, data⟩] := by
      show s.mSendPackets ++ [_] = _
      rw [hs.idle hsending, List.nil_append]
    have hidle : s.isSending = false := by simp [isSending, hsending]
    rw [sendTopMsg_notStalled_iff (s := s.pushed data) hsending hout, hqueue,
      sendable_singleton_iff, Feeding, hidle]
    simp
  · exact sendTopMsg_notStalled_iff rfl rfl

/-- A run of writes and completions never leaves the queue stalled exactly when each of its steps
feeds the queue. -/
theorem never_stalls_iff (actions : List SendAction) :
    Always NotStalled step fresh actions ↔ Meets Feeding step fresh actions :=
  always_iff_meets (fun _ _ _ hs h => step_inv hs h)
    (fun _ _ _ hs hgood h => step_notStalled_iff hs hgood h) fresh_inv
    ⟨.inl (fun _ h => by cases h), fun h => by cases h⟩ actions

/-- An empty packet, as `HttpConnect::sendMsg` makes it of an empty string, stops the queue: the
packet written after it is never handed over. -/
theorem empty_packet_stalls :
    ¬ Always NotStalled step fresh
      [.write (BasePacket.construct 0 []).sendData,
        .write ((BasePacket.construct 0 []).append [97]).sendData] := by
  rintro ⟨-, h⟩
  obtain ⟨-, h⟩ := h _ rfl
  obtain ⟨-, hsending⟩ := h _ rfl
  exact hsending rfl rfl

end TcpSocket

end LuaServer
