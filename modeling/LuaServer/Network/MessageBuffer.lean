import LuaServer.Common.ByteBuffer
import LuaServer.Reasoning.Resumable

/-!
# MessageBuffer — the read buffer of a socket and the way data reaches `on_msgbuffer`

A socket owns one buffer of fixed size.  A read puts the received bytes at its base, `on_msgbuffer`
works on the active region between the two cursors, and the cursors are reset afterwards: what
`on_msgbuffer` leaves unread is lost and the bytes of earlier reads stay in the storage.
-/

open Reasoning

namespace LuaServer

abbrev MESSAGE_BUFFER_SIZE : UInt32 := 4096

/-- The read buffer of a socket constructed with `size`. -/
@[ext] structure MessageBuffer (size : UInt32) where
  storage : List UInt8
  rpos : Nat
  wpos : Nat
  storage_length : storage.length = size.toNat
deriving DecidableEq

/-- What one read brings: at least one byte, at most the length offered by `alloc_buffer`. -/
structure Read (size : UInt32) where
  bytes : List UInt8
  ne_nil : bytes ≠ []
  length_le : bytes.length ≤ size.toNat

/-- A way of cutting a stream into reads. -/
structure Cut (size : UInt32) (stream : List UInt8) where
  reads : List (Read size)
  flatten_eq : (reads.map Read.bytes).flatten = stream

namespace MessageBuffer

variable {size : UInt32}

def create (size : UInt32) : MessageBuffer size where
  storage := List.replicate size.toNat 0
  rpos := 0
  wpos := 0
  storage_length := List.length_replicate

def reset (b : MessageBuffer size) : MessageBuffer size := { b with rpos := 0, wpos := 0 }

/-- `_wpos - _rpos` in `size_t`. -/
def getActiveSize (b : MessageBuffer size) : Nat := toSizeT ((b.wpos : Int) - b.rpos)

/-- The storage from the read pointer on. -/
def getReadPointer (b : MessageBuffer size) : List UInt8 := b.storage.drop b.rpos

/-- `count` bytes from the read pointer; none if they go past the storage. -/
def readBytes (b : MessageBuffer size) (count : Nat) : Option (List UInt8) :=
  if b.rpos + count ≤ b.storage.length then some (b.getReadPointer.take count) else none

def readCompleted (b : MessageBuffer size) (bytes : Nat) : MessageBuffer size :=
  { b with rpos := b.rpos + bytes }

/-- libuv stores the bytes at the base pointer, then `WriteCompleted(nread)`. -/
def receive (b : MessageBuffer size) (r : Read size) : MessageBuffer size where
  storage := overwrite b.storage 0 r.bytes
  rpos := b.rpos
  wpos := b.wpos + r.bytes.length
  storage_length := by
    have h := r.length_le
    rw [overwrite_length (by rw [b.storage_length]; omega), b.storage_length]

/-- The received bytes that have not been read yet. -/
def active (b : MessageBuffer size) : List UInt8 := b.getReadPointer.take b.getActiveSize

/-- The cursors stand in order inside the storage. -/
structure InBounds (b : MessageBuffer size) : Prop where
  rpos_le : b.rpos ≤ b.wpos
  wpos_le : b.wpos ≤ size.toNat

theorem InBounds.getActiveSize_eq {b : MessageBuffer size} (h : b.InBounds) :
    b.getActiveSize = b.wpos - b.rpos := by
  have hr := h.rpos_le
  have hw := h.wpos_le
  have hs := size.toNat_lt
  rw [getActiveSize, toSizeT_of_lt] <;> omega

theorem InBounds.active_length {b : MessageBuffer size} (h : b.InBounds) :
    b.active.length = b.getActiveSize := by
  have hw := h.wpos_le
  rw [active, List.length_take, getReadPointer, List.length_drop, b.storage_length,
    h.getActiveSize_eq]
  omega

theorem InBounds.getActiveSize_lt {b : MessageBuffer size} (h : b.InBounds) :
    b.getActiveSize < 2 ^ 32 := by
  have hw := h.wpos_le
  have hs := size.toNat_lt
  rw [h.getActiveSize_eq]
  omega

theorem InBounds.readCompleted {b : MessageBuffer size} (h : b.InBounds) {k : Nat}
    (hk : k ≤ b.active.length) : (b.readCompleted k).InBounds := by
  have hr := h.rpos_le
  rw [h.active_length, h.getActiveSize_eq] at hk
  refine ⟨?_, h.wpos_le⟩
  change b.rpos + k ≤ b.wpos
  omega

theorem InBounds.readCompleted_active {b : MessageBuffer size} (h : b.InBounds) {k : Nat}
    (hk : k ≤ b.active.length) : (b.readCompleted k).active = b.active.drop k := by
  rw [active, active, (h.readCompleted hk).getActiveSize_eq, h.getActiveSize_eq, getReadPointer,
    getReadPointer, List.drop_take, List.drop_drop]
  congr 1
  change b.wpos - (b.rpos + k) = b.wpos - b.rpos - k
  omega

theorem InBounds.readBytes_eq {b : MessageBuffer size} (h : b.InBounds) {k : Nat}
    (hk : k ≤ b.active.length) : b.readBytes k = some (b.active.take k) := by
  have hr := h.rpos_le
  have hw := h.wpos_le
  have hk' := h.active_length ▸ hk
  rw [h.getActiveSize_eq] at hk'
  rw [readBytes, if_pos (by rw [b.storage_length]; omega), active, List.take_take,
    Nat.min_eq_left (h.active_length ▸ hk)]

theorem getReadPointer_take (b : MessageBuffer size) {k : Nat} (hk : k ≤ b.getActiveSize) :
    b.getReadPointer.take k = b.active.take k := by
  rw [active, List.take_take, Nat.min_eq_left hk]

theorem receive_inBounds (b : MessageBuffer size) (r : Read size) :
    (b.reset.receive r).InBounds := by
  have h := r.length_le
  refine ⟨Nat.zero_le _, ?_⟩
  change 0 + r.bytes.length ≤ size.toNat
  omega

theorem receive_active (b : MessageBuffer size) (r : Read size) :
    (b.reset.receive r).active = r.bytes := by
  have hs : (b.reset.receive r).getActiveSize = r.bytes.length := by
    rw [(b.receive_inBounds r).getActiveSize_eq]
    change 0 + r.bytes.length - 0 = r.bytes.length
    omega
  rw [active, hs]
  change ((overwrite b.storage 0 r.bytes).drop 0).take r.bytes.length = r.bytes
  simp [overwrite]

theorem create_receive (r : Read size) :
    ((create size).receive r).getReadPointer =
        r.bytes ++ List.replicate (size.toNat - r.bytes.length) 0 ∧
      ((create size).receive r).getActiveSize = r.bytes.length := by
  have hbounds := (create size).receive_inBounds r
  have hactive := (create size).receive_active r
  constructor
  · show overwrite (List.replicate size.toNat 0) 0 r.bytes = _
    rw [overwrite_zero, List.drop_replicate]
  · exact hbounds.active_length.symm.trans (congrArg List.length hactive)

end MessageBuffer

/-- A socket: its read buffer and the members of the class derived from it. -/
@[ext] structure TcpSocketBase (size : UInt32) (σ : Type*) where
  mBuffer : MessageBuffer size
  derived : σ

/-- The virtual `on_msgbuffer`, run for a bounded number of loop turns. -/
abbrev OnMsgbuffer (size : UInt32) (σ : Type*) : Type _ :=
  Nat → σ × MessageBuffer size → Option (σ × MessageBuffer size)

section
variable {size : UInt32} {σ : Type*}

/-- `while (buffer->GetActiveSize() > 0) body`. -/
def whileActive (body : σ × MessageBuffer size → σ × MessageBuffer size) : OnMsgbuffer size σ :=
  whileFuel (fun p => decide (0 < p.2.getActiveSize)) body

/-- `echo_read` with `nread > 0`. -/
def echoRead (handler : OnMsgbuffer size σ) (fuel : Nat) (s : TcpSocketBase size σ)
    (r : Read size) : Option (TcpSocketBase size σ) :=
  (handler fuel (s.derived, s.mBuffer.receive r)).map fun p => ⟨p.2.reset, p.1⟩

/-- The reads reach the socket in order and `echo_read` returns from each of them. -/
def EchoReads (handler : OnMsgbuffer size σ) :
    TcpSocketBase size σ → List (Read size) → TcpSocketBase size σ → Prop
  | s, [], t => t = s
  | s, r :: rs, t => ∃ m, (∃ fuel, echoRead handler fuel s r = some m) ∧ EchoReads handler m rs t

def TcpSocketBase.fresh (size : UInt32) (d : σ) : TcpSocketBase size σ :=
  ⟨MessageBuffer.create size, d⟩

/-- The state of a socket between two reads. -/
def TcpSocketBase.AtRest (s : TcpSocketBase size σ) : Prop := s.mBuffer.reset = s.mBuffer

theorem TcpSocketBase.fresh_atRest (d : σ) : (TcpSocketBase.fresh size d).AtRest := rfl

/-! ## The buffer loop and the stream consumer it implements -/

/-- On a buffer in bounds the body of the loop does one turn of the consumer on the active bytes. -/
def Implements (body : σ × MessageBuffer size → σ × MessageBuffer size)
    (turn : σ → List UInt8 → σ × List UInt8) : Prop :=
  ∀ d (b : MessageBuffer size), b.InBounds → 0 < b.getActiveSize →
    ∃ k ≤ b.active.length, body (d, b) = ((turn d b.active).1, b.readCompleted k) ∧
      (turn d b.active).2 = b.active.drop k

variable {body : σ × MessageBuffer size → σ × MessageBuffer size}
  {turn : σ → List UInt8 → σ × List UInt8}

theorem Implements.keeps (himp : Implements body turn) (b₀ : MessageBuffer size)
    (p : σ × MessageBuffer size) (hp : p.2.InBounds ∧ p.2.reset = b₀)
    (hc : decide (0 < p.2.getActiveSize) = true) :
    (body p).2.InBounds ∧ (body p).2.reset = b₀ := by
  obtain ⟨k, hk, hbody, -⟩ := himp p.1 p.2 hp.1 (by simpa using hc)
  rw [show p = (p.1, p.2) from rfl, hbody]
  exact ⟨hp.1.readCompleted hk, hp.2⟩

/-- The loop on the buffer ends when the consumer has used up the active bytes. -/
theorem active_cond {p : σ × MessageBuffer size} (hp : p.2.InBounds) :
    (!p.2.active.isEmpty) = decide (0 < p.2.getActiveSize) := by
  have hl := hp.active_length
  cases he : p.2.active with
  | nil => simp [← hl, he]
  | cons x xs => simp [← hl, he]

theorem Implements.active_body (himp : Implements body turn) {p : σ × MessageBuffer size}
    (hp : p.2.InBounds) (hc : decide (0 < p.2.getActiveSize) = true) :
    turn p.1 p.2.active = ((body p).1, (body p).2.active) := by
  obtain ⟨k, hk, hbody, hrest⟩ := himp p.1 p.2 hp (by simpa using hc)
  rw [show p = (p.1, p.2) from rfl, hbody]
  simp only [hp.readCompleted_active hk, ← hrest]

/-- The loop on the buffer and the consumer on the active bytes have the same results. -/
theorem Implements.feeds_iff (himp : Implements body turn) {d d' : σ} {b : MessageBuffer size}
    (hb : b.InBounds) :
    Feeds turn d b.active d' ↔
      ∃ b', Returns (fun p => decide (0 < p.2.getActiveSize)) body (d, b) (d', b') := by
  -- the two loops go together by forgetting all but the active bytes
  have hmap : Feeds turn d b.active d' ↔
      ∃ t : σ × MessageBuffer size,
        Returns (fun p => decide (0 < p.2.getActiveSize)) body (d, b) t ∧
          (t.1, t.2.active) = (d', []) :=
    returns_map (s := (d, b)) (fun p : σ × MessageBuffer size => (p.1, p.2.active))
      (fun p => p.2.InBounds ∧ p.2.reset = b.reset) (fun _ hp => active_cond hp.1)
      (fun p hp hc => ⟨himp.keeps _ p hp hc, himp.active_body hp.1 hc⟩) ⟨hb, rfl⟩ (d', [])
  refine hmap.trans ⟨?_, ?_⟩
  · rintro ⟨⟨d₁, b'⟩, hret, heq⟩
    obtain rfl : d₁ = d' := congrArg Prod.fst heq
    exact ⟨b', hret⟩
  · rintro ⟨b', hret⟩
    have hinv := hret.invariant (himp.keeps b.reset) ⟨hb, rfl⟩
    have hexit : b'.getActiveSize = 0 := by simpa using hret.cond_eq
    have hempty : b'.active = [] :=
      List.length_eq_zero_iff.mp (hinv.1.active_length.trans hexit)
    exact ⟨(d', b'), hret, by rw [hempty]⟩

/-- What holds at every turn of the loop on the buffer holds at every turn of the consumer. -/
theorem Implements.throughout_iff (himp : Implements body turn) {P : σ → Prop} {d : σ}
    {b : MessageBuffer size} (hb : b.InBounds) :
    (∀ q, Turns (fun p => decide (0 < p.2.getActiveSize)) body (d, b) q → P q.1) ↔
      Throughout turn P d b.active := by
  have hmap : ∀ u, Turns (fun p : σ × List UInt8 => !p.2.isEmpty) (fun p => turn p.1 p.2)
      (d, b.active) u ↔ ∃ t : σ × MessageBuffer size,
        Turns (fun p => decide (0 < p.2.getActiveSize)) body (d, b) t ∧ (t.1, t.2.active) = u :=
    turns_map (s := (d, b)) (fun p : σ × MessageBuffer size => (p.1, p.2.active))
      (fun p => p.2.InBounds ∧ p.2.reset = b.reset) (fun _ hp => active_cond hp.1)
      (fun p hp hc => ⟨himp.keeps _ p hp hc, himp.active_body hp.1 hc⟩) ⟨hb, rfl⟩
  constructor
  · intro h u hu
    obtain ⟨t, ht, rfl⟩ := (hmap u).mp hu
    exact h t ht
  · intro h q hq
    exact h _ ((hmap _).mpr ⟨q, hq, rfl⟩)

theorem echoRead_iff (himp : Implements body turn) {s t : TcpSocketBase size σ} (hs : s.AtRest)
    (r : Read size) :
    (∃ fuel, echoRead (whileActive body) fuel s r = some t) ↔
      Feeds turn s.derived r.bytes t.derived ∧ t.mBuffer = (s.mBuffer.receive r).reset := by
  -- between two reads the cursors are at the start, so the read is all there is
  have hbounds : (s.mBuffer.receive r).InBounds := hs ▸ s.mBuffer.receive_inBounds r
  have hactive : (s.mBuffer.receive r).active = r.bytes := hs ▸ s.mBuffer.receive_active r
  rw [← hactive, himp.feeds_iff hbounds]
  constructor
  · rintro ⟨fuel, hf⟩
    obtain ⟨⟨d, b'⟩, hloop, rfl⟩ := Option.map_eq_some_iff.mp hf
    have hret : Returns _ body (s.derived, s.mBuffer.receive r) (d, b') := ⟨fuel, hloop⟩
    exact ⟨⟨b', hret⟩, (hret.invariant (himp.keeps _) ⟨hbounds, rfl⟩).2⟩
  · rintro ⟨⟨b', hret⟩, hbuf⟩
    have hinv := hret.invariant (himp.keeps _) ⟨hbounds, rfl⟩
    obtain ⟨fuel, hloop⟩ := hret
    refine ⟨fuel, Option.map_eq_some_iff.mpr ⟨_, hloop, ?_⟩⟩
    ext1
    · exact hinv.2.trans hbuf.symm
    · rfl

/-- Reading is feeding the consumer: reads that `echo_read` returns from lead where the consumer,
fed with their bytes, goes. -/
theorem echoReads_iff (himp : Implements body turn) {s : TcpSocketBase size σ} (hs : s.AtRest)
    (rs : List (Read size)) (d : σ) :
    (∃ t, EchoReads (whileActive body) s rs t ∧ t.derived = d) ↔
      FeedsAll turn s.derived (rs.map Read.bytes) d := by
  induction rs generalizing s with
  | nil => simp [EchoReads, FeedsAll, eq_comm]
  | cons r rs ih =>
    simp only [EchoReads, List.map_cons, FeedsAll]
    constructor
    · rintro ⟨t, ⟨m, hm, ht⟩, hd⟩
      obtain ⟨hfeeds, hbuf⟩ := (echoRead_iff himp hs r).mp hm
      have hrest : m.AtRest := by rw [TcpSocketBase.AtRest, hbuf]; rfl
      exact ⟨m.derived, hfeeds, (ih hrest).mp ⟨t, ht, hd⟩⟩
    · rintro ⟨d₁, hfeeds, hall⟩
      let m : TcpSocketBase size σ := ⟨(s.mBuffer.receive r).reset, d₁⟩
      obtain ⟨t, ht, hd⟩ := (ih (s := m) rfl).mpr hall
      exact ⟨t, ⟨m, (echoRead_iff himp hs r).mpr ⟨hfeeds, rfl⟩, ht⟩, hd⟩

/-- For a consumer that does not see the cuts of its input only the stream counts. -/
theorem echoReads_cut_iff (himp : Implements body turn) (hr : Resumable turn) (d₀ d : σ)
    {stream : List UInt8} (cut : Cut size stream) :
    (∃ t, EchoReads (whileActive body) (TcpSocketBase.fresh size d₀) cut.reads t ∧
      t.derived = d) ↔ Feeds turn d₀ stream d := by
  rw [echoReads_iff himp (TcpSocketBase.fresh_atRest d₀), feedsAll_iff hr, cut.flatten_eq]
  rfl

theorem EchoReads.atRest {handler : OnMsgbuffer size σ} {s t : TcpSocketBase size σ}
    {rs : List (Read size)} (h : EchoReads handler s rs t) (hs : s.AtRest) : t.AtRest := by
  induction rs generalizing s with
  | nil => exact h ▸ hs
  | cons r rs ih =>
    obtain ⟨m, ⟨fuel, hf⟩, ht⟩ := h
    obtain ⟨p, -, rfl⟩ := Option.map_eq_some_iff.mp hf
    exact ih ht rfl

end

end LuaServer
