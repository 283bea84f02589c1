import LuaServer.Common.ByteBuffer
import LuaServer.Reasoning.Transition

/-!
# PacketGetters — the typed reads of a packet

Scripts read a packet with the getters of `BasePacket`.  A getter takes bytes from the read cursor
on and moves the cursor behind them: `read<T>` without asking how many bytes are left, the string
loop up to a zero or the end of the storage.  `readData` gives a view and moves nothing.
-/

open Reasoning

namespace LuaServer

/-! ## 1. The getters -/

/-- A region of a packet's storage: where it begins and how many bytes it has. -/
structure Span where
  pos : Nat
  len : Nat
deriving DecidableEq

inductive Getter
  | getInt8
  | getUint8
  | getInt16
  | getUint16
  | getInt32
  | getUint32
  | getInt64
  | getUint64
  | getFloat
  | getDouble
  | getString
  | readData
deriving DecidableEq

/-- What a getter returns. -/
inductive GetterValue
  | int (value : Int)
  -- the bytes of a floating-point number
  | real (bytes : List UInt8)
  | text (bytes : List UInt8)
deriving DecidableEq

/-- The two's complement value of the bytes. -/
def signedValue (bytes : List UInt8) : Int :=
  (leNat bytes + 2 ^ (8 * bytes.length - 1)) % 2 ^ (8 * bytes.length) -
    2 ^ (8 * bytes.length - 1)

namespace Getter

/-- `sizeof(T)` of the getters that are `popValue<T>` for a number type. -/
def width : Getter → Option Nat
  | getInt8 | getUint8 => some 1
  | getInt16 | getUint16 => some 2
  | getInt32 | getUint32 | getFloat => some 4
  | getInt64 | getUint64 | getDouble => some 8
  | getString | readData => none

def value (g : Getter) (bytes : List UInt8) : GetterValue :=
  match g with
  | getInt8 | getInt16 | getInt32 | getInt64 => .int (signedValue bytes)
  | getUint8 | getUint16 | getUint32 | getUint64 => .int (leNat bytes)
  | getFloat | getDouble => .real bytes
  | getString | readData => .text bytes

end Getter

namespace BasePacket

variable {headSize : Nat}

def readPointer (p : BasePacket headSize) : List UInt8 := p.storage.drop p.rpos

def activeSize (p : BasePacket headSize) : Int := toInt32 (toSizeT ((p.wpos : Int) - p.rpos))

/-- The view that `readData()` returns; `string_view` takes its length as a `size_t`. -/
def readData (p : BasePacket headSize) : Span := ⟨p.rpos, toSizeT p.activeSize⟩

/-- The bytes of a region.  Those that lie outside the storage are undefined in the source; here
they are missing. -/
def view (p : BasePacket headSize) (v : Span) : List UInt8 := (p.storage.drop v.pos).take v.len

end BasePacket

/-- The loop of `operator>>(std::string&)` on the rest of the storage: the characters, and how many
bytes are read. -/
def readString : List UInt8 → List UInt8 × Nat
  | [] => ([], 0)
  | c :: rest => if c = 0 then ([], 1) else (c :: (readString rest).1, (readString rest).2 + 1)

/-- A packet that is being read and the regions that have been read. -/
structure PacketReads (headSize : Nat) where
  packet : BasePacket headSize
  reads : List Span

namespace Getter

variable {headSize : Nat}

/-- The region that a call reads. -/
def span (g : Getter) (p : BasePacket headSize) : Span :=
  match g with
  | getString => ⟨p.rpos, (readString p.readPointer).2⟩
  | readData => p.readData
  | g => ⟨p.rpos, g.width.getD 0⟩

/-- What a call returns. -/
def result (g : Getter) (p : BasePacket headSize) : GetterValue :=
  match g with
  | getString => g.value (readString p.readPointer).1
  | g => g.value (p.view (g.span p))

/-- The packet after a call. -/
def after (g : Getter) (p : BasePacket headSize) : BasePacket headSize :=
  match g with
  | readData => p
  | g => { p with rpos := p.rpos + (g.span p).len }

def step (s : PacketReads headSize) (g : Getter) : Option (PacketReads headSize) :=
  some ⟨g.after s.packet, s.reads ++ [g.span s.packet]⟩

/-- A number that is read lies in front of the write cursor. -/
def Fits (s : PacketReads headSize) (g : Getter) : Prop :=
  ∀ w, g.width = some w → s.packet.rpos + w ≤ s.packet.wpos

instance (s : PacketReads headSize) (g : Getter) : Decidable (Fits s g) :=
  inferInstanceAs (Decidable (∀ w ∈ g.width, s.packet.rpos + w ≤ s.packet.wpos))

end Getter

/-- All bytes read so far lie in the storage, and the cursors stand in order inside it. -/
structure PacketReads.Inside {headSize : Nat} (s : PacketReads headSize) : Prop where
  reads_le : ∀ v ∈ s.reads, v.pos + v.len ≤ s.packet.storage.length
  rpos_le : s.packet.rpos ≤ s.packet.wpos
  wpos_le : s.packet.wpos ≤ s.packet.storage.length
  activeSize_nonneg : 0 ≤ s.packet.activeSize
  readData_le : s.packet.readData.len ≤ s.packet.wpos - s.packet.rpos

/-! ## 2. One call -/

theorem readString_le (bytes : List UInt8) : (readString bytes).2 ≤ bytes.length := by
  induction bytes with
  | nil => exact le_refl 0
  | cons c rest ih =>
    rw [readString, List.length_cons]
    split
    · exact Nat.le_add_left 1 rest.length
    · exact Nat.succ_le_succ ih

namespace BasePacket

variable {headSize : Nat} {p : BasePacket headSize}

/-- Cursors in order, with fewer than `2 ^ 31` bytes between them. -/
theorem activeSize_eq (h : p.rpos ≤ p.wpos) (hlt : p.wpos - p.rpos < 2 ^ 31) :
    p.activeSize = (p.wpos - p.rpos : Nat) := by
  rw [activeSize, toInt32_toSizeT, ← Int.ofNat_sub h]
  exact toInt32_of_lt hlt

theorem readData_eq (h : p.rpos ≤ p.wpos) (hlt : p.wpos - p.rpos < 2 ^ 31) :
    p.readData = ⟨p.rpos, p.wpos - p.rpos⟩ := by
  rw [readData, activeSize_eq h hlt, toSizeT_of_lt (by omega) (by omega), Int.toNat_natCast]

end BasePacket

namespace PacketReads

variable {headSize : Nat} {s : PacketReads headSize}

/-- Only bytes that have been written are in the storage, and they are few enough for an `int32`. -/
structure Filled (s : PacketReads headSize) : Prop where
  wpos_eq : s.packet.wpos = s.packet.storage.length
  active_lt : s.packet.wpos - s.packet.rpos < 2 ^ 31

theorem Filled.inside_iff (h : s.Filled) :
    s.Inside ↔ (∀ v ∈ s.reads, v.pos + v.len ≤ s.packet.storage.length) ∧
      s.packet.rpos ≤ s.packet.wpos := by
  constructor
  · intro hs
    exact ⟨hs.reads_le, hs.rpos_le⟩
  · intro hs
    obtain ⟨hreads, hle⟩ := hs
    refine ⟨hreads, hle, h.wpos_eq.le, ?_, ?_⟩
    · rw [BasePacket.activeSize_eq hle h.active_lt]
      omega
    · rw [BasePacket.readData_eq hle h.active_lt]

end PacketReads

namespace Getter

variable {headSize : Nat} {s t : PacketReads headSize} {g : Getter}

theorem after_wpos (g : Getter) (p : BasePacket headSize) : (g.after p).wpos = p.wpos := by
  cases g <;> rfl

theorem after_storage (g : Getter) (p : BasePacket headSize) :
    (g.after p).storage = p.storage := by
  cases g <;> rfl

theorem le_after_rpos (g : Getter) (p : BasePacket headSize) : p.rpos ≤ (g.after p).rpos := by
  cases g
  case readData => exact le_refl _
  all_goals exact Nat.le_add_right _ _

theorem step_filled (h : s.Filled) (hstep : step s g = some t) : t.Filled := by
  cases hstep
  refine ⟨?_, ?_⟩
  · change (g.after s.packet).wpos = (g.after s.packet).storage.length
    rw [after_wpos, after_storage, h.wpos_eq]
  · have hrpos := g.le_after_rpos s.packet
    have hlt := h.active_lt
    change (g.after s.packet).wpos - (g.after s.packet).rpos < 2 ^ 31
    rw [after_wpos]
    omega

/-- A number getter moves the read cursor by the width of the number. -/
theorem number_span {w : Nat} (hw : g.width = some w) (p : BasePacket headSize) :
    g.span p = ⟨p.rpos, w⟩ ∧ (g.after p).rpos = p.rpos + w := by
  cases g <;> cases hw <;> exact ⟨rfl, rfl⟩

/-- The other getters stay in a packet that has been filled. -/
theorem text_span (h : s.Filled) (hs : s.packet.rpos ≤ s.packet.wpos) (hw : g.width = none) :
    (g.span s.packet).pos + (g.span s.packet).len ≤ s.packet.wpos ∧
      (g.after s.packet).rpos ≤ s.packet.wpos := by
  have hstring : s.packet.rpos + (readString s.packet.readPointer).2 ≤ s.packet.wpos := by
    have hle := readString_le s.packet.readPointer
    have hlen : s.packet.readPointer.length = s.packet.wpos - s.packet.rpos := by
      rw [BasePacket.readPointer, List.length_drop, h.wpos_eq]
    omega
  cases g <;> cases hw
  case getString => exact ⟨hstring, hstring⟩
  case readData =>
    refine ⟨?_, hs⟩
    change s.packet.readData.pos + s.packet.readData.len ≤ s.packet.wpos
    rw [BasePacket.readData_eq hs h.active_lt]
    change s.packet.rpos + (s.packet.wpos - s.packet.rpos) ≤ s.packet.wpos
    omega

/-- A call keeps a packet in order exactly if the number it reads, if it reads one, is there. -/
theorem step_inside_iff (h : s.Filled) (hs : s.Inside) (hstep : step s g = some t) :
    t.Inside ↔ g.Fits s := by
  rw [(step_filled h hstep).inside_iff]
  cases hstep
  simp only [after_storage, after_wpos, ← h.wpos_eq, List.mem_append, List.mem_singleton]
  have hreads := hs.reads_le
  rw [← h.wpos_eq] at hreads
  cases hw : g.width with
  | some w =>
    obtain ⟨hspan, hrpos⟩ := number_span hw s.packet
    constructor
    · intro ht w' hw'
      cases hw.symm.trans hw'
      have hle := ht.2
      omega
    · intro hfits
      have hle := hfits w hw
      refine ⟨?_, by omega⟩
      intro v hv
      rcases hv with hv | hv
      · exact hreads v hv
      · rw [hv, hspan]
        exact hle
  | none =>
    obtain ⟨hspan, hrpos⟩ := text_span h hs.rpos_le hw
    apply iff_of_true
    · refine ⟨?_, hrpos⟩
      intro v hv
      rcases hv with hv | hv
      · exact hreads v hv
      · exact hv ▸ hspan
    · intro w hw'
      cases hw.symm.trans hw'

/-! ## 3. Any number of calls -/

/-- All calls on a packet whose cursors stand in order stay inside it exactly if each number that
is read is there. -/
theorem always_inside_iff (h : s.Filled) (hs : s.Inside) (gs : List Getter) :
    Always PacketReads.Inside step s gs ↔ Meets (fun s g => g.Fits s) step s gs :=
  always_iff_meets (fun _ _ _ hI hstep => step_filled hI hstep)
    (fun _ _ _ hI hP hstep => step_inside_iff hI hP hstep) h hs gs

end Getter

end LuaServer
