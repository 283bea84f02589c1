import LuaServer.Network.WebSocketConnect

/-!
# WebSocketHead — the packet that has read a head

Whatever the bytes of a head are, the packet that has read it stands at offset 14 and has what
followed the first two bytes right-aligned in front of it.  An extended length is looked for behind
offset 2: only a head of 14 bytes has a byte of its length there.
-/

open Reasoning

namespace LuaServer

/-- How many bytes the second byte of a head announces between itself and the payload. -/
def restLength (second : UInt8) : Nat :=
  (if second.toNat % 128 = 126 then 2 else if second.toNat % 128 = 127 then 8 else 0) +
    if 128 ≤ second.toNat then 4 else 0

/-- The bytes of a head: any two bytes, and as many more as the second one announces. -/
structure FrameHead where
  first : UInt8
  second : UInt8
  extra : List UInt8
  length_eq : extra.length = restLength second

namespace FrameHead

open WebSocketPacket

def bytes (h : FrameHead) : List UInt8 := h.first :: h.second :: h.extra

/-- The packet that has read the head. -/
def packet (h : FrameHead) : WebSocketPacket :=
  ((beginPacket.copyFixed [h.first, h.second]).placeRest).fill h.extra

/-- The length that the connection reads: the low half of a length of eight bytes as they stand in
the longest head, and 0 for any other extended length. -/
def mark (h : FrameHead) : Int :=
  if h.second.toNat % 128 < 126 then (h.second.toNat % 128 : Nat)
  else if h.second = 255 then toInt32 (leNat (h.extra.take 4))
  else 0

/-! ## 1. The bits of the fixed head -/

theorem and_7f_toNat (b : UInt8) : (b &&& 0x7f).toNat = b.toNat % 128 := by
  rw [UInt8.toNat_and]
  exact Nat.and_two_pow_sub_one_eq_mod b.toNat 7

theorem and_0f_toNat (b : UInt8) : (b &&& 0x0f).toNat = b.toNat % 16 := by
  rw [UInt8.toNat_and]
  exact Nat.and_two_pow_sub_one_eq_mod b.toNat 4

theorem high_bit_ne_zero_iff (b : UInt8) : (b >>> 7) &&& 0x01 ≠ 0 ↔ 128 ≤ b.toNat := by
  have hlt : b.toNat < 256 := b.toNat_lt
  have hbit : ((b >>> 7) &&& 0x01).toNat = b.toNat / 128 % 2 := by
    rw [UInt8.toNat_and, UInt8.toNat_shiftRight]
    change (b.toNat >>> 7) &&& 1 = _
    rw [Nat.shiftRight_eq_div_pow]
    exact Nat.and_two_pow_sub_one_eq_mod _ 1
  rw [ne_eq, ← UInt8.toNat_inj, hbit]
  change ¬ b.toNat / 128 % 2 = 0 ↔ _
  omega

section
variable {p : WebSocketPacket} {first second : UInt8} (hp : p.m_head = [first, second])

include hp

theorem getPayloadLen_toNat : p.getPayloadLen.toNat = second.toNat % 128 := by
  rw [getPayloadLen, hp]
  exact and_7f_toNat second

theorem getMask_ne_zero_iff : p.getMask ≠ 0 ↔ 128 ≤ second.toNat := by
  rw [getMask, hp]
  exact high_bit_ne_zero_iff second

theorem getOpcode_toNat : p.getOpcode.toNat = first.toNat % 16 := by
  rw [getOpcode, hp]
  exact and_0f_toNat first

theorem calcHeadSize_eq : p.calcHeadSize = 2 + restLength second := by
  have hlen := getPayloadLen_toNat hp
  have h126 : p.getPayloadLen = 126 ↔ second.toNat % 128 = 126 := by
    rw [← hlen, ← UInt8.toNat_inj]
    rfl
  have h127 : p.getPayloadLen = 127 ↔ second.toNat % 128 = 127 := by
    rw [← hlen, ← UInt8.toNat_inj]
    rfl
  simp only [calcHeadSize, h126, h127, getMask_ne_zero_iff hp, restLength, WS_HEAD_SIZE,
    Nat.add_assoc]

end

/-! ## 2. A packet behind the first two bytes -/

section
variable {p : WebSocketPacket} (first second : UInt8)

theorem restLength_le : restLength second ≤ 12 := by
  have h := (beginPacket.copyFixed [0, second]).calcHeadSize_le
  rw [calcHeadSize_eq (show _ = [0, second] from rfl)] at h
  omega

theorem placed_storage : ((p.copyFixed [first, second]).placeRest).storage = p.storage := by
  have hcopied : (p.copyFixed [first, second]).storage = p.storage := BasePacket.advance_storage _ _
  unfold placeRest
  split
  · exact hcopied
  · exact hcopied

theorem placed_rpos : ((p.copyFixed [first, second]).placeRest).rpos = p.rpos := by
  have hcopied : (p.copyFixed [first, second]).rpos = p.rpos := by
    change (BasePacket.advance _ _).rpos = p.rpos
    unfold BasePacket.advance
    split <;> rfl
  unfold placeRest
  split <;> exact hcopied

variable (hw : p.wpos = 0) (hlen : p.m_head.length = WS_HEAD_SIZE)

include hw

theorem copied_wpos : (p.copyFixed [first, second]).wpos = 2 := by
  rw [copyFixed_wpos (show p.wpos + 2 ≤ 14 by omega), hw]
  rfl

include hlen

theorem copied_head : (p.copyFixed [first, second]).m_head = [first, second] := by
  change overwrite p.m_head p.wpos [first, second] = _
  have hnone : p.m_head.drop [first, second].length = [] := List.drop_eq_nil_of_le hlen.le
  rw [hw, overwrite_zero, hnone, List.append_nil]

theorem placed_wpos :
    ((p.copyFixed [first, second]).placeRest).wpos = 14 - restLength second := by
  have hle := restLength_le second
  have hplaced : ((p.copyFixed [first, second]).placeRest).wpos =
      14 - (p.copyFixed [first, second]).calcHeadSize + 2 := by
    rw [placeRest, if_pos (copied_wpos first second hw)]
    rfl
  rw [hplaced, calcHeadSize_eq (copied_head first second hw hlen)]
  omega

theorem placed_head : ((p.copyFixed [first, second]).placeRest).m_head = [first, second] := by
  have hcopied := copied_head first second hw hlen
  unfold placeRest
  split <;> exact hcopied

/-- A packet at its beginning takes two bytes and then what they announce. -/
theorem headBytes_eq (bs : List UInt8) :
    p.headBytes (first :: second :: bs) =
      (((p.copyFixed [first, second]).placeRest).fill (bs.take (restLength second)),
        bs.drop (restLength second)) := by
  have hle := restLength_le second
  have hplaced := placed_wpos first second hw hlen
  have hone : (p.copyFixed [first]).wpos = 1 := by
    rw [copyFixed_wpos (show p.wpos + 1 ≤ 14 by omega), hw]
    rfl
  have hfirst : p.headByte first = p.copyFixed [first] := by
    rw [headByte, if_pos (by rw [hw]; decide), placeRest_of_ne (by rw [hone]; decide)]
  have hsecond : (p.copyFixed [first]).headByte second =
      (p.copyFixed [first, second]).placeRest := by
    rw [headByte, if_pos (by rw [hone]; decide), copyFixed_copyFixed
      (show p.wpos + (1 + 1) ≤ 14 by omega) (by omega)]
    rfl
  have hsub : 14 - (14 - restLength second) = restLength second := by omega
  rw [headBytes_cons (by omega), hfirst, headBytes_cons (by omega), hsecond,
    headBytes_rest (by omega) (by omega), hplaced, hsub]

end

/-! ## 3. The packet that has read a head -/

variable (h : FrameHead)

theorem extra_length_le : h.extra.length ≤ 12 := h.length_eq ▸ restLength_le h.second

theorem packet_wpos : h.packet.wpos = 14 := by
  have hle := h.extra_length_le
  have hw : h.packet.wpos = 14 - restLength h.second + h.extra.length := by
    rw [← placed_wpos (p := beginPacket) h.first h.second rfl rfl]
    rfl
  rw [hw, ← h.length_eq]
  omega

theorem packet_head : h.packet.m_head = [h.first, h.second] :=
  placed_head (p := beginPacket) h.first h.second rfl rfl

theorem packet_rpos : h.packet.rpos = 14 := placed_rpos h.first h.second

theorem packet_storage :
    h.packet.storage = List.replicate (14 - h.extra.length) 0 ++ h.extra := by
  have hle := h.extra_length_le
  change overwrite ((beginPacket.copyFixed [h.first, h.second]).placeRest).storage
    ((beginPacket.copyFixed [h.first, h.second]).placeRest).wpos h.extra = _
  rw [placed_storage, placed_wpos _ _ rfl rfl, ← h.length_eq]
  change overwrite (List.replicate 14 0) _ _ = _
  rw [overwrite, List.take_replicate,
    List.drop_replicate, Nat.min_eq_left (by omega),
    show 14 - (14 - h.extra.length + h.extra.length) = 0 by omega, List.replicate_zero,
    List.append_nil]

theorem packet_storage_length : h.packet.storage.length = 14 := by
  have hle := h.extra_length_le
  rw [packet_storage, List.length_append, List.length_replicate]
  omega

theorem packet_isHeadFull : h.packet.isHeadFull = true :=
  (isHeadFull_iff _).mpr h.packet_wpos.ge

/-! ## 4. The length that is read -/

/-- Behind offset 2 there are two zeros, and then two more unless the head has 14 bytes. -/
theorem packet_zeros (n : Nat) (hn : n + 2 + h.extra.length ≤ 14) (m : Nat) :
    (h.packet.storage.drop 2).take (n + m) =
      List.replicate n 0 ++ ((h.packet.storage.drop 2).drop n).take m := by
  have hfront : (h.packet.storage.drop 2).take n = List.replicate n 0 := by
    rw [packet_storage, List.drop_append_of_le_length (by rw [List.length_replicate]; omega),
      List.drop_replicate, List.take_append_of_le_length (by rw [List.length_replicate]; omega),
      List.take_replicate, Nat.min_eq_left (by omega)]
  rw [List.take_add, hfront]

theorem packet_markLen_word (h126 : h.second.toNat % 128 = 126) : h.packet.getMarkLen = 0 := by
  have hlen := getPayloadLen_toNat h.packet_head
  have hrest : h.extra.length ≤ 6 := by
    rw [h.length_eq, restLength, if_pos h126]
    split <;> decide
  have hpay : h.packet.getPayloadLen = 126 := UInt8.toNat_inj.mp (hlen.trans h126)
  have hval : h.packet.getValue WS_HEAD_SIZE 2 = 0 := by
    change leNat ((h.packet.storage.drop 2).take (2 + 0)) = 0
    rw [h.packet_zeros 2 (by omega), List.take_zero, List.append_nil, leNat_replicate_zero]
  have hge : ¬ (126 : UInt8) < 126 := by decide
  rw [getMarkLen]
  simp only [hpay, hval, if_neg hge, if_true]
  decide

theorem packet_markLen_long (h127 : h.second.toNat % 128 = 127) :
    h.packet.getMarkLen = if h.second = 255 then toInt32 (leNat (h.extra.take 4)) else 0 := by
  have hlen := getPayloadLen_toNat h.packet_head
  have hle := h.extra_length_le
  have hpay : h.packet.getPayloadLen = 127 := UInt8.toNat_inj.mp (hlen.trans h127)
  have hmark : h.packet.getMarkLen =
      toInt32 (toUint32 (leNat (((h.packet.storage.drop 2).take (4 + 4))))) := by
    have hge : ¬ (127 : UInt8) < 126 := by decide
    have hne : ¬ (127 : UInt8) = 126 := by decide
    rw [getMarkLen]
    simp only [hpay, if_neg hge, if_neg hne]
    rfl
  have hsecond : h.second = 255 ↔ 128 ≤ h.second.toNat := by
    rw [← UInt8.toNat_inj]
    have hlt : h.second.toNat < 256 := h.second.toNat_lt
    change h.second.toNat = 255 ↔ _
    omega
  rw [hmark]
  by_cases hmask : 128 ≤ h.second.toNat
  · -- the longest head begins at offset 0: the length stands where it is looked for
    have h12 : h.extra.length = 12 := by
      rw [h.length_eq, restLength, if_neg (by omega), if_pos h127, if_pos hmask]
    have hextra : h.packet.storage.drop 2 = h.extra := by
      rw [packet_storage, h12]
      exact List.drop_left' rfl
    have hlow : (h.extra.take 4).length = 4 := by
      rw [List.length_take]
      omega
    have hlt := leNat_lt (h.extra.take 4)
    rw [if_pos (hsecond.mpr hmask), hextra, List.take_add, leNat_append, hlow]
    rw [hlow] at hlt
    have hlow32 : toUint32 (leNat (h.extra.take 4) + 256 ^ 4 * leNat ((h.extra.drop 4).take 4) :
        Nat) = leNat (h.extra.take 4) := by
      unfold toUint32
      omega
    rw [hlow32]
  · have h8 : h.extra.length = 8 := by
      rw [h.length_eq, restLength, if_neg (by omega), if_pos h127, if_neg hmask]
    rw [if_neg (fun h255 => hmask (hsecond.mp h255)), h.packet_zeros 4 (by omega), leNat_append,
      leNat_replicate_zero, List.length_replicate]
    have hlow32 : toUint32 (0 + 256 ^ 4 * leNat (((h.packet.storage.drop 2).drop 4).take 4) :
        Nat) = 0 := by
      unfold toUint32
      omega
    rw [hlow32]
    rfl

theorem packet_getMarkLen : h.packet.getMarkLen = h.mark := by
  have hlen := getPayloadLen_toNat h.packet_head
  unfold mark
  by_cases hshort : h.second.toNat % 128 < 126
  · have hlt : h.packet.getPayloadLen < 126 := by
      rw [UInt8.lt_iff_toNat_lt, hlen]
      exact hshort
    rw [if_pos hshort, getMarkLen]
    simp only [if_pos hlt, hlen]
  rw [if_neg hshort]
  by_cases h126 : h.second.toNat % 128 = 126
  · have hne : ¬ h.second = 255 := by
      intro h255
      rw [h255] at h126
      exact absurd h126 (by decide)
    rw [packet_markLen_word h h126, if_neg hne]
  · exact packet_markLen_long h (by omega)

theorem mark_bounds : -2 ^ 31 ≤ h.mark ∧ h.mark < 2 ^ 31 := by
  unfold mark
  by_cases hshort : h.second.toNat % 128 < 126
  · rw [if_pos hshort]
    omega
  rw [if_neg hshort]
  split
  · exact toInt32_bounds _
  · decide

theorem packet_needsize : h.packet.needsize = h.mark := by
  have hbounds := h.mark_bounds
  rw [needsize, frameEnd, packet_getMarkLen, packet_wpos, toInt32_toSizeT]
  simp only [toInt32, WS_MAX_HEAD_SIZE]
  omega

/-! ## 5. Heads in the input -/

theorem bytes_append_inj {h h' : FrameHead} {x x' : List UInt8}
    (heq : h.bytes ++ x = h'.bytes ++ x') : h = h' ∧ x = x' := by
  obtain ⟨first, second, extra, hlen⟩ := h
  obtain ⟨first', second', extra', hlen'⟩ := h'
  simp only [bytes, List.cons_append, List.cons.injEq] at heq
  obtain ⟨rfl, rfl, htail⟩ := heq
  obtain ⟨rfl, rfl⟩ := List.append_inj htail (hlen.trans hlen'.symm)
  exact ⟨rfl, rfl⟩

variable {tr : List WebSocketReaction}

theorem turn_eq (rest : List UInt8) :
    frameReader.turn (none, tr) (h.bytes ++ rest) = ((some h.packet, tr), rest) := by
  have hread : frameReader.readHead beginPacket (h.bytes ++ rest) = (h.packet, rest) := by
    have hne : h.bytes ++ rest ≠ [] := List.cons_ne_nil _ _
    rw [readHead_eq (by decide) hne]
    change beginPacket.headBytes (h.first :: h.second :: (h.extra ++ rest)) = _
    rw [headBytes_eq _ _ rfl rfl, ← h.length_eq, List.take_left, List.drop_left]
    rfl
  rw [PacketReader.turn_head (p := beginPacket) rfl (by decide), hread]

/-- The input begins with a head, or a turn on it uses it up. -/
theorem head_or_short (bs : List UInt8) (hbs : bs ≠ []) :
    (∃ (h : FrameHead) (rest : List UInt8), bs = h.bytes ++ rest) ∨
      ∀ tr, ∃ p, frameReader.turn (none, tr) bs = ((some p, tr), []) := by
  have hturn : ∀ tr, frameReader.turn (none, tr) bs =
      ((some (beginPacket.headBytes bs).1, tr), (beginPacket.headBytes bs).2) := by
    intro tr
    rw [PacketReader.turn_head (p := beginPacket) rfl (by decide),
      readHead_eq (by decide) hbs]
  obtain ⟨first, rest, rfl⟩ := List.exists_cons_of_ne_nil hbs
  by_cases hrest : rest = []
  · subst hrest
    apply Or.inr
    intro tr
    rw [hturn, headBytes_cons (by decide)]
    exact ⟨_, rfl⟩
  obtain ⟨second, rest, rfl⟩ := List.exists_cons_of_ne_nil hrest
  by_cases hlen : restLength second ≤ rest.length
  · refine .inl ⟨⟨first, second, rest.take (restLength second), ?_⟩,
      rest.drop (restLength second), ?_⟩
    · rw [List.length_take, Nat.min_eq_left hlen]
    · change _ = first :: second :: (_ ++ _)
      rw [List.take_append_drop]
  · apply Or.inr
    intro tr
    rw [hturn, headBytes_eq _ _ rfl rfl, List.drop_eq_nil_of_le (by omega)]
    exact ⟨_, rfl⟩

end FrameHead

end LuaServer
