import LuaServer.Common.ObjectPool
import LuaServer.Network.PacketClass

/-!
# PooledPackets — packets on buffers from the pool

A packet keeps its bytes in a `CBuffer` that it takes from the pool and gives back when it is
destroyed; neither clears the buffer.  `PacketMemory` has the packets with the addresses of their
buffers, `Packets` has packets whose buffers are new and empty when they are made.  The methods are
written once for both, and `step_view` shows that the packets look the same in both.
-/

open Reasoning

namespace LuaServer

/-! ## 1. Methods of one packet -/

/-- A packet as its methods see it, with the contents of its buffer. -/
structure PacketState where
  cls : PacketClass
  storage : List UInt8
  rpos : Nat
  wpos : Nat
  -- a field of `WebSocketPacket`
  __m_headpos : Nat
deriving DecidableEq

namespace PacketState

/-- `BasePacket::zero`. -/
def baseZero (p : PacketState) : PacketState :=
  { p with storage := resize p.storage 0, rpos := 0, wpos := 0 }

/-- The virtual `zero`. -/
def zero (p : PacketState) : PacketState :=
  { p with
    storage := resize p.storage p.cls.getHeadSize
    rpos := p.cls.getHeadSize
    wpos := p.cls.getHeadSize
    __m_headpos := 0 }

/-- The constructors on a buffer with these contents: `ByteBuffer()` sets the cursors, `BasePacket()`
calls its own `zero`, and then the class calls its one. -/
def construct (cls : PacketClass) (contents : List UInt8) : PacketState :=
  (baseZero ⟨cls, contents, 0, 0, 0⟩).zero

def append (p : PacketState) (src : List UInt8) : PacketState :=
  { p with
    storage := p.storage.take p.wpos ++ src ++ p.storage.drop p.wpos
    wpos := p.wpos + src.length }

def push (p : PacketState) (v : PacketValue) : PacketState :=
  match v with
  | .string value _ => (if value = [] then p else p.append value).append [0]
  | v => p.append v.bytes

/-- `memcpy` into the storage.  What is copied behind its end is never seen: `resize` and `insert`
write the places that they add. -/
def put (p : PacketState) (pos : Nat) (src : List UInt8) : PacketState :=
  { p with storage := (overwrite p.storage pos src).take p.storage.length }

/-- A negative size makes `resize` throw. -/
def setWriteSize (p : PacketState) (size : Int) : PacketState :=
  let size := toInt32 (size + p.cls.getHeadSize)
  if size < 0 then p else { p with storage := resize p.storage size.toNat, wpos := size.toNat }

def getBodySize (p : PacketState) : Int := toInt32 (toSizeT ((p.wpos : Int) - p.cls.getHeadSize))

/-- `UdpPacket::initSize`; the comparison is one of `size_t`, and a negative size makes `resize`
throw. -/
def initSize (p : PacketState) (s : Int) : Option PacketState :=
  if p.cls = .UdpPacket then
    if 0 ≤ s ∧ p.storage.length < s.toNat then some { p with storage := resize p.storage s.toNat }
    else some p
  else none

/-- `writeHead` of the two classes that have one. -/
def writeHead (p : PacketState) (msgtype : Int) : Option PacketState :=
  match p.cls with
  | .NetPacket =>
    some ((p.put MSG_LEN_POS (leBytes 4 (toUint32 p.getBodySize))).put MSG_TYPE_POS
      (leBytes 4 (toUint32 msgtype)))
  | .UdpPacket => some (p.put 0 (leBytes 4 (toUint32 msgtype)))
  | _ => none

def writeFrameHead (p : PacketState) (bodylen : Int) (frame_type : Nat) : PacketState :=
  let bytelength : Nat :=
    if bodylen ≤ 125 then (bodylen % 256).toNat else if bodylen ≤ 0xffff then 126 else 127
  let extended : List UInt8 :=
    if bodylen ≤ 125 then []
    else if bodylen ≤ 0xffff then leBytes 2 (bodylen % 2 ^ 16).toNat
    else leBytes 8 (toSizeT bodylen)
  let headpos := WS_MAX_HEAD_SIZE - extended.length
  let p := p.put headpos extended
  let p := p.put (headpos - 1) (leBytes 1 bytelength)
  let p := p.put (headpos - 2) (leBytes 1 frame_type)
  { p with __m_headpos := headpos - 2 }

/-- `getBodyData()` up to the write cursor. -/
def body (p : PacketState) : List UInt8 := (p.storage.take p.wpos).drop p.cls.getHeadSize

/-- `sendStream()` and `sendSize()`. -/
def sendData (p : PacketState) : SendData :=
  let begin := if p.cls = .WebSocketPacket then p.__m_headpos else 0
  { sendStream := p.storage.drop begin
    sendSize := toInt32 (toSizeT ((p.wpos : Int) - begin))
    lo := (toInt32_bounds _).1
    hi := (toInt32_bounds _).2 }

/-- A packet of the class, as its methods see it. -/
def ofPacket (cls : PacketClass) (p : LuaServer.BasePacket cls.getHeadSize) : PacketState :=
  ⟨cls, p.storage, p.rpos, p.wpos, 0⟩

def ofWebSocketPacket (p : LuaServer.WebSocketPacket) : PacketState :=
  ⟨.WebSocketPacket, p.storage, p.rpos, p.wpos, p.m_headpos⟩

theorem construct_ofPacket (cls : PacketClass) (contents : List UInt8) :
    construct cls contents = ofPacket cls (BasePacket.construct cls.getHeadSize contents) := rfl

theorem zero_ofPacket {cls : PacketClass} (p : LuaServer.BasePacket cls.getHeadSize) :
    (ofPacket cls p).zero = ofPacket cls p.zero := rfl

theorem push_ofPacket {cls : PacketClass} (p : LuaServer.BasePacket cls.getHeadSize)
    (v : PacketValue) : (ofPacket cls p).push v = ofPacket cls (p.push v) := by
  cases v with
  | string value _ =>
    show (if value = [] then ofPacket cls p else ofPacket cls (p.append value)).append [0] =
      ofPacket cls ((if value = [] then p else p.append value).append [0])
    split
    · rfl
    · rfl
  | _ => rfl

/-- Inside the storage a copy is a copy. -/
theorem put_eq (p : PacketState) {pos : Nat} {src : List UInt8}
    (h : pos + src.length ≤ p.storage.length) :
    p.put pos src = { p with storage := overwrite p.storage pos src } := by
  rw [put, List.take_of_length_le (overwrite_length h).le]

theorem writeHead_ofPacket (p : LuaServer.NetPacket) (msgtype : Int) :
    (ofPacket .NetPacket p).writeHead msgtype =
      some (ofPacket .NetPacket (NetPacket.writeHead p msgtype)) := by
  have hle : 8 ≤ p.storage.length := p.head_le
  have hfirst : (overwrite p.storage 0 (leBytes 4 (toUint32 p.getBodySize))).length =
      p.storage.length := overwrite_length (by rw [leBytes_length]; omega)
  show some ((put _ _ _).put _ _) = _
  rw [put_eq (ofPacket .NetPacket p) (by rw [leBytes_length]; exact le_trans (by decide) hle),
    put_eq _ (by rw [leBytes_length]; exact le_trans (by decide) (hfirst ▸ hle))]
  rfl

end PacketState

/-! ## 2. Packets in a memory -/

/-- How packets are kept: each under a number. -/
structure PacketHeap (σ : Type) where
  load : σ → Nat → Option PacketState
  store : σ → Nat → PacketState → σ
  -- two packets exchange their buffers
  swapBuffer : σ → Nat → Nat → σ

namespace PacketHeap

variable {σ : Type} (H : PacketHeap σ)

/-- A method of one packet is called. -/
def call (s : σ) (packet : Nat) (f : PacketState → Option PacketState) : Option σ :=
  ((H.load s packet).bind f).map (H.store s packet)

/-- `BasePacket::moveData`. -/
def baseMoveData (s : σ) (packet source : Nat) : Option σ :=
  (H.load s source).bind fun q =>
    (H.call s packet fun p => some { p with rpos := q.rpos, wpos := q.wpos }).bind fun s =>
      H.call (H.swapBuffer s packet source) source fun q => some q.zero

/-- The virtual `moveData`: a `WebSocketPacket` takes nothing from a packet with another head, and
writes its own. -/
def moveData (s : σ) (packet source : Nat) : Option σ :=
  (H.load s packet).bind fun p =>
    if p.cls = .WebSocketPacket then
      (H.load s source).bind fun q =>
        if q.cls.getHeadSize ≠ p.cls.getHeadSize then some s
        else (H.baseMoveData s packet source).bind fun s =>
          H.call s packet fun p => some (p.writeFrameHead q.getBodySize BINARY_FRAME)
    else H.baseMoveData s packet source

end PacketHeap

/-- What a program does with packets. -/
inductive PacketOp
  | construct (packet : Nat) (cls : PacketClass)
  | push (packet : Nat) (value : PacketValue)
  | append (packet : Nat) (src : List UInt8)
  | setWriteSize (packet : Nat) (size : Int)
  | initSize (packet : Nat) (s : Int)
  | moveData (packet source : Nat)
  | zero (packet : Nat)
  | writeHead (packet : Nat) (msgtype : Int)
  | writeFrameHead (packet : Nat) (bodylen : Int) (frame_type : Nat)
  | destruct (packet : Nat)

/-- The operations between the constructor and the destructor. -/
def PacketHeap.perform {σ : Type} (H : PacketHeap σ) (s : σ) : PacketOp → Option σ
  | .push packet value => H.call s packet fun p => some (p.push value)
  | .append packet src => H.call s packet fun p => some (p.append src)
  | .setWriteSize packet size => H.call s packet fun p => some (p.setWriteSize size)
  | .initSize packet n => H.call s packet fun p => p.initSize n
  | .moveData packet source => H.moveData s packet source
  | .zero packet => H.call s packet fun p => some p.zero
  | .writeHead packet msgtype => H.call s packet fun p => p.writeHead msgtype
  | .writeFrameHead packet bodylen frame_type =>
    H.call s packet fun p =>
      if p.cls = .WebSocketPacket then some (p.writeFrameHead bodylen frame_type) else none
  | .construct _ _ | .destruct _ => none

/-! ## 3. Packets on new buffers -/

/-- The packets that exist, each with a buffer of its own. -/
abbrev Packets : Type := Nat → Option PacketState

namespace Packets

def heap : PacketHeap Packets where
  load s packet := s packet
  store s packet p := Function.update s packet (some p)
  swapBuffer s packet source :=
    match s packet, s source with
    | some p, some q =>
      Function.update (Function.update s packet (some { p with storage := q.storage })) source
        (some { q with storage := p.storage })
    | _, _ => s

def step (s : Packets) (op : PacketOp) : Option Packets :=
  match op with
  | .construct packet cls =>
    if s packet = none then some (Function.update s packet (some (.construct cls []))) else none
  | .destruct packet => if s packet = none then none else some (Function.update s packet none)
  | op => heap.perform s op

end Packets

/-! ## 4. Packets on buffers from the pool -/

/-- A packet with the address of its `CBuffer`. -/
structure PacketObject where
  cls : PacketClass
  _storage : Ptr
  rpos : Nat
  wpos : Nat
  __m_headpos : Nat

structure PacketMemory where
  -- `CommonPool<CBuffer>`
  pool : ObjectPoolUse
  -- what the vectors hold, of the buffers in the pool as well
  buffer : Ptr → List UInt8
  packets : Nat → Option PacketObject

namespace PacketMemory

/-- The pool has been used before, and the buffers hold anything. -/
def start (pool : ObjectPoolUse) (buffer : Ptr → List UInt8) : PacketMemory :=
  ⟨pool, buffer, fun _ => none⟩

def view (m : PacketMemory) : Packets := fun packet =>
  (m.packets packet).map fun o =>
    ⟨o.cls, m.buffer o._storage, o.rpos, o.wpos, o.__m_headpos⟩

def store (m : PacketMemory) (packet : Nat) (p : PacketState) : PacketMemory :=
  match m.packets packet with
  | some o =>
    { m with
      buffer := Function.update m.buffer o._storage p.storage
      packets := Function.update m.packets packet
        (some ⟨p.cls, o._storage, p.rpos, p.wpos, p.__m_headpos⟩) }
  | none => m

def heap : PacketHeap PacketMemory where
  load := view
  store := store
  swapBuffer m packet source :=
    match m.packets packet, m.packets source with
    | some p, some q =>
      { m with
        packets := Function.update (Function.update m.packets packet
          (some { p with _storage := q._storage })) source (some { q with _storage := p._storage }) }
    | _, _ => m

/-- `createBuffer`: a buffer of the pool as it is, or a new one, which is empty. -/
def createBuffer (m : PacketMemory) (new : Ptr) : Option (Ptr × PacketMemory) :=
  (m.pool.pool.createObject new).map fun r =>
    (r.1, { m with
      pool := { m.pool with pool := r.2, handedOut := m.pool.handedOut ++ [r.1] }
      buffer :=
        if m.pool.pool.isEnabledPoolObject_ r.1 = none then Function.update m.buffer r.1 []
        else m.buffer })

def construct (m : PacketMemory) (packet : Nat) (cls : PacketClass) (new : Ptr) :
    Option PacketMemory :=
  if m.packets packet = none then
    (m.createBuffer new).map fun r =>
      let p := PacketState.construct cls (r.2.buffer r.1)
      { r.2 with
        buffer := Function.update r.2.buffer r.1 p.storage
        packets := Function.update r.2.packets packet
          (some ⟨cls, r.1, p.rpos, p.wpos, p.__m_headpos⟩) }
  else none

/-- `~ByteBuffer` gives the buffer back. -/
def destruct (m : PacketMemory) (packet : Nat) : Option PacketMemory :=
  match m.packets packet with
  | none => none
  | some o =>
    match m.pool.pool.reclaimObject (some o._storage) with
    | .done s =>
      some { m with
        pool := { m.pool with
          pool := s
          handedOut := m.pool.handedOut.filter (some · ≠ some o._storage) }
        packets := Function.update m.packets packet none }
    | _ => none

/-- An operation, with the address of the buffer if a new one is made. -/
def step (m : PacketMemory) (a : PacketOp × Ptr) : Option PacketMemory :=
  match a.1 with
  | .construct packet cls => m.construct packet cls a.2
  | .destruct packet => m.destruct packet
  | op => heap.perform m op

/-- No two packets have one buffer, and the buffers of the packets are handed out. -/
structure Sound (m : PacketMemory) : Prop where
  owned : m.pool.Owned
  owns : ∀ {packet o}, m.packets packet = some o → o._storage ∈ m.pool.handedOut
  alone : ∀ {packet packet' o o'}, m.packets packet = some o → m.packets packet' = some o' →
    o._storage = o'._storage → packet = packet'

/-- The memory is sound and its packets look like these. -/
structure Shows (m : PacketMemory) (s : Packets) : Prop where
  sound : m.Sound
  view_eq : m.view = s

variable {m m' : PacketMemory} {s : Packets}

theorem start_shows {pool : ObjectPoolUse} (hpool : pool.Owned) (buffer : Ptr → List UInt8) :
    Shows (start pool buffer) fun _ => none :=
  ⟨⟨hpool, nofun, nofun⟩, rfl⟩

/-! ## 5. Methods -/

theorem view_eq_none_iff {packet : Nat} : m.view packet = none ↔ m.packets packet = none :=
  Option.map_eq_none_iff

/-- Storing a packet changes that packet only. -/
theorem Shows.store (h : Shows m s) {packet : Nat} {o : PacketObject}
    (ho : m.packets packet = some o) (p : PacketState) :
    Shows (m.store packet p) (Function.update s packet (some p)) := by
  have hpackets : ∀ {packet' o'}, (m.store packet p).packets packet' = some o' →
      ∃ q, m.packets packet' = some q ∧ q._storage = o'._storage := by
    intro packet' o' ho'
    simp only [PacketMemory.store, ho, Function.update_apply] at ho'
    split at ho'
    · subst packet'
      cases ho'
      exact ⟨o, ho, rfl⟩
    · exact ⟨o', ho', rfl⟩
  have hpool : (m.store packet p).pool = m.pool := by
    simp only [PacketMemory.store, ho]
  refine ⟨⟨hpool ▸ h.sound.owned, ?_, ?_⟩, ?_⟩
  · intro packet' o' ho'
    obtain ⟨q, hq, hstorage⟩ := hpackets ho'
    rw [hpool, ← hstorage]
    exact h.sound.owns hq
  · intro packet₁ packet₂ o₁ o₂ h₁ h₂ heq
    obtain ⟨q₁, hq₁, hstorage₁⟩ := hpackets h₁
    obtain ⟨q₂, hq₂, hstorage₂⟩ := hpackets h₂
    exact h.sound.alone hq₁ hq₂ (by rw [hstorage₁, hstorage₂, heq])
  · funext packet'
    rw [← h.view_eq, Function.update_apply]
    simp only [view, PacketMemory.store, ho, Function.update_apply]
    split
    · rw [Option.map_some, if_pos rfl]
    · rename_i hne
      cases ho' : m.packets packet' with
      | none => rfl
      | some o' =>
        rw [Option.map_some, Option.map_some, if_neg]
        exact fun heq => hne (h.sound.alone ho' ho heq)

theorem Shows.swapBuffer (h : Shows m s) (packet source : Nat) :
    Shows (heap.swapBuffer m packet source) (Packets.heap.swapBuffer s packet source) := by
  rw [← h.view_eq]
  cases hp : m.packets packet with
  | none =>
    have hview : m.view packet = none := view_eq_none_iff.mpr hp
    simp only [heap, Packets.heap, hp, hview]
    exact ⟨h.sound, rfl⟩
  | some p =>
    cases hq : m.packets source with
    | none =>
      have hview : m.view source = none := view_eq_none_iff.mpr hq
      simp only [heap, Packets.heap, hp, hq, hview]
      exact ⟨h.sound, by cases m.view packet <;> rfl⟩
    | some q =>
      have hpview : m.view packet = some ⟨p.cls, m.buffer p._storage, p.rpos, p.wpos,
        p.__m_headpos⟩ := by rw [view, hp]; rfl
      have hqview : m.view source = some ⟨q.cls, m.buffer q._storage, q.rpos, q.wpos,
        q.__m_headpos⟩ := by rw [view, hq]; rfl
      simp only [heap, Packets.heap, hp, hq, hpview, hqview]
      -- the packet that has a buffer afterwards, and the one that had it before
      have hfrom : ∀ {packet' o'},
          Function.update (Function.update m.packets packet (some { p with _storage := q._storage }))
            source (some { q with _storage := p._storage }) packet' = some o' →
          ∃ r, m.packets (if packet' = source then packet else if packet' = packet then source
            else packet') = some r ∧ r._storage = o'._storage := by
        intro packet' o' ho'
        simp only [Function.update_apply] at ho'
        split at ho'
        · cases ho'
          rw [if_pos ‹_›]
          exact ⟨p, hp, rfl⟩
        · rw [if_neg ‹_›]
          split at ho'
          · cases ho'
            rw [if_pos ‹_›]
            exact ⟨q, hq, rfl⟩
          · rw [if_neg ‹_›]
            exact ⟨o', ho', rfl⟩
      refine ⟨⟨h.sound.owned, ?_, ?_⟩, ?_⟩
      · intro packet' o' ho'
        obtain ⟨r, hr, hstorage⟩ := hfrom ho'
        exact hstorage ▸ h.sound.owns hr
      · intro packet₁ packet₂ o₁ o₂ h₁ h₂ heq
        obtain ⟨r₁, hr₁, hstorage₁⟩ := hfrom h₁
        obtain ⟨r₂, hr₂, hstorage₂⟩ := hfrom h₂
        have hsame := h.sound.alone hr₁ hr₂ (by rw [hstorage₁, hstorage₂, heq])
        split_ifs at hsame <;> simp_all
      · funext packet'
        simp only [view, Function.update_apply]
        split
        · rfl
        · split <;> rfl

/-- A relation between what two steps come to: both are possible or none is. -/
abbrev ShowsResult : Option PacketMemory → Option Packets → Prop := Option.Rel Shows

theorem ShowsResult.bind {r : Option PacketMemory} {r' : Option Packets}
    {f : PacketMemory → Option PacketMemory} {f' : Packets → Option Packets}
    (h : ShowsResult r r') (hf : ∀ m s, Shows m s → ShowsResult (f m) (f' s)) :
    ShowsResult (r.bind f) (r'.bind f') := by
  cases h with
  | some h => exact hf _ _ h
  | none => exact .none

theorem ShowsResult.isSome_eq {r : Option PacketMemory} {r' : Option Packets}
    (h : ShowsResult r r') : r.isSome = r'.isSome := by
  cases h <;> rfl

theorem ShowsResult.exists_some {r' : Option Packets} (h : ShowsResult (some m) r') :
    ∃ s, r' = some s ∧ Shows m s := by
  cases h with
  | some hs => exact ⟨_, rfl, hs⟩

theorem Shows.call (h : Shows m s) (packet : Nat) (f : PacketState → Option PacketState) :
    ShowsResult (heap.call m packet f) (Packets.heap.call s packet f) := by
  obtain ⟨hsound, rfl⟩ := h
  rw [PacketHeap.call, PacketHeap.call]
  show ShowsResult (((m.view packet).bind f).map (m.store packet))
    (((m.view packet).bind f).map fun p => Function.update m.view packet (some p))
  cases ho : m.packets packet with
  | none =>
    rw [view_eq_none_iff.mpr ho]
    exact .none
  | some o =>
    cases (m.view packet).bind f with
    | none => exact .none
    | some p => exact .some (Shows.store ⟨hsound, rfl⟩ ho p)

theorem Shows.load (h : Shows m s) (packet : Nat) :
    heap.load m packet = Packets.heap.load s packet :=
  congrFun h.view_eq packet

theorem Shows.baseMoveData (h : Shows m s) (packet source : Nat) :
    ShowsResult (heap.baseMoveData m packet source)
      (Packets.heap.baseMoveData s packet source) := by
  rw [PacketHeap.baseMoveData, PacketHeap.baseMoveData, h.load]
  cases Packets.heap.load s source with
  | none => exact .none
  | some q =>
    apply ShowsResult.bind (h.call _ _)
    intro m s h
    exact (h.swapBuffer packet source).call _ _

theorem Shows.moveData (h : Shows m s) (packet source : Nat) :
    ShowsResult (heap.moveData m packet source) (Packets.heap.moveData s packet source) := by
  rw [PacketHeap.moveData, PacketHeap.moveData, h.load, h.load]
  cases Packets.heap.load s packet with
  | none => exact .none
  | some p =>
    rw [Option.bind_some, Option.bind_some]
    split
    · cases Packets.heap.load s source with
      | none => exact .none
      | some q =>
        rw [Option.bind_some, Option.bind_some]
        split
        · exact .some h
        · apply ShowsResult.bind (h.baseMoveData packet source)
          intro m s h
          exact h.call _ _
    · exact h.baseMoveData packet source

theorem Shows.perform (h : Shows m s) (op : PacketOp) :
    ShowsResult (heap.perform m op) (Packets.heap.perform s op) := by
  cases op with
  | moveData packet source => exact h.moveData packet source
  | construct | destruct => exact .none
  | push | append | setWriteSize | initSize | zero | writeHead | writeFrameHead => exact h.call _ _

/-! ## 6. Construction and destruction -/

/-- The constructors empty whatever buffer they get. -/
theorem construct_contents (cls : PacketClass) (contents : List UInt8) :
    PacketState.construct cls contents = PacketState.construct cls [] := by
  rw [PacketState.construct, PacketState.construct, PacketState.baseZero, PacketState.baseZero,
    resize_zero, resize_zero]

theorem Shows.construct (h : Shows m s) {packet : Nat} {cls : PacketClass} {new : Ptr}
    (hm : m.construct packet cls new = some m') :
    s packet = none ∧ Shows m' (Function.update s packet (some (.construct cls []))) := by
  obtain ⟨hnone, hm⟩ := Option.ite_none_right_eq_some.mp hm
  obtain ⟨r, hr, rfl⟩ := Option.map_eq_some_iff.mp hm
  obtain ⟨⟨b, pool⟩, hcreate, rfl⟩ := Option.map_eq_some_iff.mp hr
  obtain ⟨hfree, howned⟩ := h.sound.owned.createObject hcreate
  have hout : ∀ {packet' o'}, m.packets packet' = some o' → o'._storage ≠ b :=
    fun ho' heq => hfree (heq ▸ h.sound.owns ho')
  refine ⟨by rw [← h.view_eq]; exact view_eq_none_iff.mpr hnone, ⟨howned, ?_, ?_⟩, ?_⟩
  · intro packet' o' ho'
    simp only [Function.update_apply] at ho'
    split at ho'
    · cases ho'
      exact List.mem_append_right _ List.mem_cons_self
    · exact List.mem_append_left _ (h.sound.owns ho')
  · intro packet₁ packet₂ o₁ o₂ h₁ h₂ heq
    simp only [Function.update_apply] at h₁ h₂
    split at h₁ <;> split at h₂
    · rename_i h₁' h₂'
      rw [h₁', h₂']
    · cases h₁
      exact absurd heq.symm (hout h₂)
    · cases h₂
      exact absurd heq (hout h₁)
    · exact h.sound.alone h₁ h₂ heq
  · -- the other packets have other buffers
    have hkeep : ∀ p, p ≠ b → (if m.pool.pool.isEnabledPoolObject_ b = none then
        Function.update m.buffer b [] else m.buffer) p = m.buffer p := by
      intro p hne
      split
      · exact Function.update_of_ne hne _ _
      · rfl
    funext packet'
    rw [← h.view_eq, Function.update_apply]
    simp only [view, Function.update_apply]
    by_cases heq : packet' = packet
    · rw [if_pos heq, if_pos heq, Option.map_some, if_pos rfl, construct_contents]
      rfl
    · rw [if_neg heq, if_neg heq]
      cases ho' : m.packets packet' with
      | none => rfl
      | some o' => rw [Option.map_some, Option.map_some, if_neg (hout ho'), hkeep _ (hout ho')]

/-- There is a buffer for every new packet. -/
theorem Sound.exists_construct (h : m.Sound) {packet : Nat} (hnone : m.packets packet = none)
    (cls : PacketClass) {new : Ptr} (hnew : m.pool.pool.isEnabledPoolObject_ new = none) :
    (m.construct packet cls new).isSome = true := by
  obtain ⟨obj, pool, hcreate⟩ := h.owned.exists_createObject hnew
  rw [PacketMemory.construct, if_pos hnone, createBuffer, hcreate]
  rfl

/-- A buffer that is given back is one that is handed out, so the pool takes it. -/
theorem Shows.destruct (h : Shows m s) (packet : Nat) :
    ShowsResult (m.destruct packet) (Packets.step s (.destruct packet)) := by
  rw [← h.view_eq]
  cases ho : m.packets packet with
  | none =>
    simp only [PacketMemory.destruct, ho, Packets.step, if_pos (view_eq_none_iff.mpr ho)]
    exact .none
  | some o =>
    have hsome : m.view packet ≠ none := by
      rw [Ne, view_eq_none_iff, ho]
      nofun
    obtain ⟨htrue, -⟩ := h.sound.owned.handedOut _ (h.sound.owns ho)
    obtain ⟨pool, hpool⟩ : ∃ pool, m.pool.pool.reclaimObject (some o._storage) = .done pool := by
      simp only [ObjectPool.reclaimObject, htrue]
      split
      · exact ⟨_, rfl⟩
      · exact ⟨_, rfl⟩
    simp only [PacketMemory.destruct, ho, hpool, Packets.step, if_neg hsome]
    refine .some ⟨⟨h.sound.owned.reclaimObject hpool, ?_, ?_⟩, ?_⟩
    · intro packet' o' ho'
      simp only [Function.update_apply] at ho'
      split at ho'
      · cases ho'
      · rename_i hne
        refine List.mem_filter.mpr ⟨h.sound.owns ho', decide_eq_true ?_⟩
        intro heq
        exact hne (h.sound.alone ho' ho (Option.some.inj heq))
    · intro packet₁ packet₂ o₁ o₂ h₁ h₂ heq
      simp only [Function.update_apply] at h₁ h₂
      split at h₁
      · cases h₁
      split at h₂
      · cases h₂
      exact h.sound.alone h₁ h₂ heq
    · funext packet'
      simp only [view, Function.update_apply]
      split
      · rfl
      · rfl

/-! ## 7. Every run -/

/-- Everything but a construction is possible in both or in none. -/
theorem Shows.step_result (h : Shows m s) {op : PacketOp}
    (hop : ∀ packet cls, op ≠ .construct packet cls) (new : Ptr) :
    ShowsResult (m.step (op, new)) (Packets.step s op) := by
  cases op with
  | construct packet cls => exact absurd rfl (hop packet cls)
  | destruct packet => exact h.destruct packet
  | push packet value => exact h.perform (.push packet value)
  | append packet src => exact h.perform (.append packet src)
  | setWriteSize packet size => exact h.perform (.setWriteSize packet size)
  | initSize packet n => exact h.perform (.initSize packet n)
  | moveData packet source => exact h.perform (.moveData packet source)
  | zero packet => exact h.perform (.zero packet)
  | writeHead packet msgtype => exact h.perform (.writeHead packet msgtype)
  | writeFrameHead packet bodylen frame_type =>
    exact h.perform (.writeFrameHead packet bodylen frame_type)

theorem Shows.step_shows (h : Shows m s) {a : PacketOp × Ptr} (hm : m.step a = some m') :
    ∃ s', Packets.step s a.1 = some s' ∧ Shows m' s' := by
  obtain ⟨op, new⟩ := a
  by_cases hop : ∃ packet cls, op = .construct packet cls
  · obtain ⟨packet, cls, rfl⟩ := hop
    obtain ⟨hnone, hs⟩ := h.construct hm
    exact ⟨_, if_pos hnone, hs⟩
  · have hresult := h.step_result (fun packet cls heq => hop ⟨packet, cls, heq⟩) new
    rw [hm] at hresult
    exact hresult.exists_some

/-- What is possible with new buffers is possible with buffers from the pool. -/
theorem Shows.step_isSome (h : Shows m s) {a : PacketOp × Ptr}
    (hnew : m.pool.pool.isEnabledPoolObject_ a.2 = none) :
    (m.step a).isSome = (Packets.step s a.1).isSome := by
  obtain ⟨op, new⟩ := a
  by_cases hop : ∃ packet cls, op = .construct packet cls
  · obtain ⟨packet, cls, rfl⟩ := hop
    have hiff : s packet = none ↔ m.packets packet = none := by
      rw [← h.view_eq]
      exact view_eq_none_iff
    by_cases hnone : m.packets packet = none
    · rw [Packets.step, if_pos (hiff.mpr hnone)]
      exact h.sound.exists_construct hnone cls hnew
    · rw [Packets.step, if_neg (hiff.not.mpr hnone)]
      show (m.construct packet cls new).isSome = false
      rw [PacketMemory.construct, if_neg hnone]
      rfl
  · exact (h.step_result (fun packet cls heq => hop ⟨packet, cls, heq⟩) new).isSome_eq

theorem Shows.run (h : Shows m s) {actions : List (PacketOp × Ptr)}
    (hm : Reasoning.run step m actions = some m') :
    ∃ s', Reasoning.run Packets.step s (actions.map Prod.fst) = some s' ∧ Shows m' s' := by
  induction actions generalizing m s with
  | nil =>
    cases hm
    exact ⟨s, rfl, h⟩
  | cons a actions ih =>
    obtain ⟨m₁, hstep, hrest⟩ := run_cons_iff.mp hm
    obtain ⟨s₁, hs₁, h₁⟩ := h.step_shows hstep
    obtain ⟨s', hs', h'⟩ := ih h₁ hrest
    exact ⟨s', run_cons_iff.mpr ⟨s₁, hs₁, hs'⟩, h'⟩

/-- Whatever the pool has been used for and whatever its buffers hold, the packets look as if every
buffer had been new and empty, and what can be done next is the same. -/
theorem packets_as_new {maxfreecount : Int} {history : List ObjectPoolAction}
    {pool : ObjectPoolUse} (hpool : Reasoning.run ObjectPoolUse.step
      (ObjectPoolUse.start maxfreecount) history = some pool) (buffer : Ptr → List UInt8)
    {actions : List (PacketOp × Ptr)}
    (hrun : Reasoning.run step (start pool buffer) actions = some m) :
    Reasoning.run Packets.step (fun _ => none) (actions.map Prod.fst) = some m.view ∧
      ∀ a : PacketOp × Ptr, m.pool.pool.isEnabledPoolObject_ a.2 = none →
        (m.step a).map view = Packets.step m.view a.1 := by
  have howned : pool.Owned :=
    Reachable.invariant (fun _ _ _ => ObjectPoolUse.step_owned) ⟨history, hpool⟩
      (ObjectPoolUse.start_owned maxfreecount)
  obtain ⟨s, hs, h⟩ := (start_shows howned buffer).run hrun
  refine ⟨h.view_eq ▸ hs, fun a hnew => ?_⟩
  have hview : Shows m m.view := ⟨h.sound, rfl⟩
  have hsome := hview.step_isSome hnew
  cases hm : m.step a with
  | none =>
    rw [hm, Option.isSome_none] at hsome
    rw [Option.map_none, eq_comm, ← Option.not_isSome_iff_eq_none, ← hsome]
    exact Bool.false_ne_true
  | some m' =>
    obtain ⟨s', hs', h'⟩ := hview.step_shows hm
    rw [Option.map_some, hs', h'.view_eq]

/-- Two buffers come back to the pool and are taken for two packets. -/
theorem packets_as_new_twice :
    ∃ pool m, Reasoning.run ObjectPoolUse.step (.start 512) [.createObject 0, .createObject 1,
        .reclaimObject (some 1), .reclaimObject (some 0)] = some pool ∧
      Reasoning.run step (start pool fun _ => [1, 2, 3]) [(.construct 0 .NetPacket, 2),
        (.push 0 (.uint16 5), 2), (.construct 1 .NetPacket, 2), (.moveData 1 0, 2)] = some m ∧
      Reasoning.run Packets.step (fun _ => none) [.construct 0 .NetPacket, .push 0 (.uint16 5),
        .construct 1 .NetPacket, .moveData 1 0] = some m.view ∧
      ∀ a : PacketOp × Ptr, m.pool.pool.isEnabledPoolObject_ a.2 = none →
        (m.step a).map view = Packets.step m.view a.1 :=
  ⟨_, _, rfl, rfl, @packets_as_new _ 512 [.createObject 0, .createObject 1,
    .reclaimObject (some 1), .reclaimObject (some 0)] _ rfl (fun _ => [1, 2, 3])
    [(.construct 0 .NetPacket, 2), (.push 0 (.uint16 5), 2), (.construct 1 .NetPacket, 2),
      (.moveData 1 0, 2)] rfl⟩

end PacketMemory

end LuaServer
