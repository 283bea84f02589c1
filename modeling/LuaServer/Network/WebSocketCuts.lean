import LuaServer.Network.WebSocketHead
import LuaServer.Reasoning.Transition

/-!
# WebSocketCuts — a head in pieces

However the bytes are cut, what a packet will have taken when its head is full depends on them and on
what it has taken already, not on the cuts.
-/

open Reasoning

namespace LuaServer

namespace WebSocketPacket

variable {p q : WebSocketPacket} {bytes rest payload : List UInt8} {size : Nat}

/-! ## 1. One call -/

/-- A call with the first `size` of the bytes that are left, while the head is not full; what it has
taken is no longer there. -/
def feed (s : WebSocketPacket × List UInt8) (size : Nat) : Option (WebSocketPacket × List UInt8) :=
  if s.1.isHeadFull = false ∧ 0 < size ∧ size ≤ s.2.length then
    let r := s.1.readFrameHead s.2 size
    some (r.1, s.2.drop r.2)
  else none

theorem feed_eq_some {s t : WebSocketPacket × List UInt8} (h : feed s size = some t) :
    s.1.isHeadFull = false ∧ 0 < size ∧ size ≤ s.2.length ∧
      ∃ r, s.1.readFrameHead s.2 size = r ∧ t = (r.1, s.2.drop r.2) := by
  obtain ⟨⟨hfull, hpos, hle⟩, ht⟩ := Option.ite_none_right_eq_some.mp h
  exact ⟨hfull, hpos, hle, _, rfl, (Option.some.inj ht).symm⟩

/-- A call takes the bytes of its piece one by one until the head is full. -/
theorem readFrameHead_piece (hfull : p.isHeadFull = false) (hpos : 0 < size)
    (hle : size ≤ bytes.length) {r : WebSocketPacket × Nat}
    (hr : p.readFrameHead bytes size = r) :
    r.1 = (p.headBytes (bytes.take size)).1 ∧
      (bytes.take size).drop r.2 = (p.headBytes (bytes.take size)).2 ∧ r.2 ≤ size := by
  have hlen : (bytes.take size).length = size := by
    rw [List.length_take]
    omega
  have hne : bytes.take size ≠ [] := List.ne_nil_of_length_pos (by omega)
  have hread := readFrameHead_eq ((isHeadFull_eq_false_iff p).mp hfull) hne
  rw [hlen, ← readFrameHead_take, hr] at hread
  exact ⟨congrArg Prod.fst hread.1, congrArg Prod.snd hread.1, hread.2⟩

theorem readFrameHead_bounds (hfull : p.isHeadFull = false) (hpos : 0 < size)
    (hle : size ≤ bytes.length) :
    1 ≤ (p.readFrameHead bytes size).2 ∧ (p.readFrameHead bytes size).2 ≤ size := by
  obtain ⟨-, hdrop, hsize⟩ := readFrameHead_piece hfull hpos hle rfl
  have hlen : (bytes.take size).length = size := by
    rw [List.length_take]
    omega
  have hne : bytes.take size ≠ [] := List.ne_nil_of_length_pos (by omega)
  have hlt := headBytes_length_lt hfull hne
  rw [← hdrop, List.length_drop] at hlt
  exact ⟨by omega, hsize⟩

/-- After a call the packet will take from what is left what it would have taken before. -/
theorem feed_headBytes {s t : WebSocketPacket × List UInt8} (h : feed s size = some t) :
    t.1.headBytes t.2 = s.1.headBytes s.2 := by
  obtain ⟨hfull, hpos, hle, r, hr, rfl⟩ := feed_eq_some h
  obtain ⟨hfst, hdrop, hsize⟩ := readFrameHead_piece hfull hpos hle hr
  have hsplit := headBytes_append s.1 (s.2.take size) (s.2.drop size)
  rw [List.take_append_drop] at hsplit
  have hrest : s.2.drop r.2 = (s.1.headBytes (s.2.take size)).2 ++ s.2.drop size := by
    rw [← hdrop, ← List.drop_append_of_le_length (by rw [List.length_take]; omega),
      List.take_append_drop]
  show r.1.headBytes (s.2.drop r.2) = _
  rw [hsplit, hrest, hfst]
  by_cases hnil : (s.1.headBytes (s.2.take size)).2 = []
  · rw [if_pos hnil, hnil, List.nil_append]
  · -- the head is full, and takes nothing more
    rw [if_neg hnil]
    exact headBytes_full (le_headBytes_wpos hnil) _

theorem feed_length_lt {s t : WebSocketPacket × List UInt8} (h : feed s size = some t) :
    t.2.length < s.2.length := by
  obtain ⟨hfull, hpos, hle, r, hr, rfl⟩ := feed_eq_some h
  have hbounds := readFrameHead_bounds hfull hpos hle
  rw [hr] at hbounds
  show (s.2.drop r.2).length < _
  rw [List.length_drop]
  omega

theorem run_feed {s t : WebSocketPacket × List UInt8} {sizes : List Nat}
    (h : run feed s sizes = some t) :
    t.1.headBytes t.2 = s.1.headBytes s.2 ∧ t.2.length + sizes.length ≤ s.2.length := by
  induction sizes generalizing s with
  | nil =>
    cases h
    exact ⟨rfl, Nat.le_refl _⟩
  | cons size sizes ih =>
    obtain ⟨m, hm, ht⟩ := run_cons_iff.mp h
    obtain ⟨hbytes, hlen⟩ := ih ht
    have hlt := feed_length_lt hm
    rw [List.length_cons]
    exact ⟨hbytes.trans (feed_headBytes hm), by omega⟩

end WebSocketPacket

/-! ## 2. A whole head -/

namespace FrameHead

open WebSocketPacket

/-- The packet is behind the head: the first two bytes are kept apart, the others end where the body
begins. -/
structure ReadBy (h : FrameHead) (p : WebSocketPacket) : Prop where
  wpos_eq : p.wpos = WS_MAX_HEAD_SIZE
  head_eq : p.m_head = [h.first, h.second]
  extra_eq : (p.storage.take WS_MAX_HEAD_SIZE).drop (WS_MAX_HEAD_SIZE - h.extra.length) = h.extra

variable (h : FrameHead) {p : WebSocketPacket}

theorem readBy_fill (hw : p.wpos = 0) (hlen : p.m_head.length = WS_HEAD_SIZE) :
    h.ReadBy (((p.copyFixed [h.first, h.second]).placeRest).fill h.extra) where
  wpos_eq := by
    have hle := h.extra_length_le
    show ((p.copyFixed [h.first, h.second]).placeRest).wpos + h.extra.length = 14
    rw [placed_wpos _ _ hw hlen, ← h.length_eq]
    omega
  head_eq := placed_head h.first h.second hw hlen
  extra_eq := by
    have hle := h.extra_length_le
    have hstorage : 14 ≤ p.storage.length := p.head_le
    have hend : (p.storage.take (14 - h.extra.length) ++ h.extra).length = 14 := by
      rw [List.length_append, List.length_take]
      omega
    have htake : (p.storage.take (14 - h.extra.length)).length = 14 - h.extra.length := by
      rw [List.length_take]
      omega
    show ((overwrite ((p.copyFixed [h.first, h.second]).placeRest).storage
      ((p.copyFixed [h.first, h.second]).placeRest).wpos h.extra).take 14).drop _ = _
    rw [placed_storage, placed_wpos _ _ hw hlen, ← h.length_eq, overwrite, List.take_left' hend,
      List.drop_left' htake]

/-- Whatever the pieces, a call takes between one byte and its piece as long as bytes of the head are
missing; and when the head is full exactly its bytes have been taken. -/
theorem feeds_head (payload : List UInt8) (hw : p.wpos = 0) (hlen : p.m_head.length = WS_HEAD_SIZE)
    {sizes : List Nat} {q : WebSocketPacket} {rest : List UInt8}
    (hrun : run feed (p, h.bytes ++ payload) sizes = some (q, rest)) :
    sizes.length ≤ h.bytes.length ∧
      (q.isHeadFull = false → payload.length < rest.length ∧
        ∀ size, 0 < size → size ≤ rest.length →
          1 ≤ (q.readFrameHead rest size).2 ∧ (q.readFrameHead rest size).2 ≤ size) ∧
      (q.isHeadFull = true → rest = payload ∧ h.ReadBy q) := by
  have hall : p.headBytes (h.bytes ++ payload) =
      (((p.copyFixed [h.first, h.second]).placeRest).fill h.extra, payload) := by
    change p.headBytes (h.first :: h.second :: (h.extra ++ payload)) = _
    rw [headBytes_eq _ _ hw hlen, ← h.length_eq, List.take_left, List.drop_left]
  have hread := h.readBy_fill hw hlen
  generalize ((p.copyFixed [h.first, h.second]).placeRest).fill h.extra = filled at hall hread
  obtain ⟨hbytes, hlength⟩ := run_feed hrun
  rw [hall] at hbytes
  have hpayload : payload.length ≤ rest.length := by
    have hle := headBytes_length_le q rest
    rwa [hbytes] at hle
  change rest.length + sizes.length ≤ (h.bytes ++ payload).length at hlength
  rw [List.length_append] at hlength
  refine ⟨by omega, fun hfull => ⟨?_, fun size => readFrameHead_bounds hfull⟩, fun hfull => ?_⟩
  · have hne : rest ≠ [] := by
      rintro rfl
      obtain ⟨rfl, -⟩ := Prod.mk.inj hbytes
      rw [isHeadFull_eq_false_iff, hread.wpos_eq] at hfull
      exact absurd hfull (by decide)
    have hlt := headBytes_length_lt hfull hne
    rwa [hbytes] at hlt
  · rw [headBytes_full ((isHeadFull_iff q).mp hfull)] at hbytes
    obtain ⟨rfl, rfl⟩ := Prod.mk.inj hbytes
    exact ⟨rfl, hread⟩

/-- A masked frame of two bytes, of which one byte is offered, then three, then all that is left. -/
theorem feeds_head_masked :
    ∃ q, run feed (beginPacket, [0x81, 0x82, 1, 2, 3, 4] ++ [5, 6]) [1, 3, 4] = some (q, [5, 6]) ∧
      q.wpos = 14 ∧ q.m_head = [0x81, 0x82] ∧ (q.storage.take 14).drop 10 = [1, 2, 3, 4] := by
  have hfull : (run feed (beginPacket, [0x81, 0x82, 1, 2, 3, 4] ++ [5, 6]) [1, 3, 4]).map
      (fun s => s.1.isHeadFull) = some true := by
    decide +kernel
  obtain ⟨⟨q, rest⟩, hrun, hq⟩ := Option.map_eq_some_iff.mp hfull
  obtain ⟨-, -, hend⟩ := feeds_head ⟨0x81, 0x82, [1, 2, 3, 4], by decide⟩ [5, 6] (p := beginPacket)
    rfl rfl hrun
  obtain ⟨rfl, hread⟩ := hend hq
  exact ⟨q, hrun, hread.wpos_eq, hread.head_eq, hread.extra_eq⟩

end FrameHead

end LuaServer
