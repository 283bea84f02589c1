import LuaServer.Network.WebSocketHead

/-!
# WebSocketFraming — what a connection makes of a frame

A frame of the format is read into one packet.  The length is taken from the second byte or, when
that announces an extended length, from offset 2 of the packet, where right-aligned heads have
nothing and the longest head has the high bytes first: an extended length reads as 0.
-/

open Reasoning

namespace LuaServer

namespace WebSocketPacket

open WebSocketFrame

/-! ## 1. The packet that has read the head of a frame -/

variable (f : WebSocketFrame)

/-- The packet that has read the head of a frame. -/
def headPacket : WebSocketPacket :=
  ((beginPacket.copyFixed [f.first, f.second]).placeRest).fill f.extra

theorem extendedLength_length (n : Nat) : (extendedLength n).length =
    if shortLength n = 126 then 2 else if shortLength n = 127 then 8 else 0 := by
  unfold extendedLength shortLength
  by_cases h125 : n ≤ 125
  · simp only [if_pos h125]
    rw [if_neg (by omega), if_neg (by omega)]
    rfl
  by_cases hword : n ≤ 65535
  · simp only [if_neg h125, if_pos hword]
    rfl
  · simp only [if_neg h125, if_neg hword]
    rfl

theorem extra_length : f.extra.length = restLength f.second := by
  have hkey : (keyBytes f.key).length = if f.key.isSome = true then 4 else 0 := by
    cases f.key with
    | none => rfl
    | some k => exact k.length_eq
  simp only [restLength, second_short, second_masked, extra, List.length_append,
    extendedLength_length, hkey]

/-- The head of a frame of the format, as any other head. -/
def frameHead : FrameHead := ⟨f.first, f.second, f.extra, extra_length f⟩

theorem headPacket_wpos : (headPacket f).wpos = 14 := (frameHead f).packet_wpos

theorem headPacket_head : (headPacket f).m_head = [f.first, f.second] := (frameHead f).packet_head

theorem headPacket_rpos : (headPacket f).rpos = 14 := (frameHead f).packet_rpos

theorem headPacket_storage :
    (headPacket f).storage = List.replicate (14 - f.extra.length) 0 ++ f.extra :=
  (frameHead f).packet_storage

theorem headPacket_storage_length : (headPacket f).storage.length = 14 :=
  (frameHead f).packet_storage_length

theorem headPacket_isHeadFull : (headPacket f).isHeadFull = true := (frameHead f).packet_isHeadFull

theorem feeds_head_iff {tr : List WebSocketReaction} {rest : List UInt8} {t : WebSocketFrames} :
    Feeds frameReader.turn (none, tr) (f.first :: f.second :: (f.extra ++ rest)) t ↔
      Feeds frameReader.turn (some (headPacket f), tr) rest t := by
  have hturn := @FrameHead.turn_eq (frameHead f) tr rest
  rw [feeds_turn_iff (List.cons_ne_nil _ _)]
  change Feeds _ (frameReader.turn (none, tr) ((frameHead f).bytes ++ rest)).1
    (frameReader.turn (none, tr) ((frameHead f).bytes ++ rest)).2 t ↔ _
  rw [hturn]
  rfl

/-! ## 2. The length that is read -/

theorem headPacket_markLen_short (h : f.payload.length ≤ 125) :
    (headPacket f).getMarkLen = f.payload.length := by
  have hshort : f.second.toNat % 128 = f.payload.length := by
    rw [second_short, shortLength, if_pos h]
  have hmark : (headPacket f).getMarkLen = (frameHead f).mark := (frameHead f).packet_getMarkLen
  rw [hmark, FrameHead.mark]
  change (if f.second.toNat % 128 < 126 then _ else _) = _
  rw [if_pos (by omega)]
  change ((f.second.toNat % 128 : Nat) : Int) = _
  rw [hshort]

/-- An extended length reads as 0: the longest head has the high bytes first. -/
theorem headPacket_markLen_long (h : 125 < f.payload.length) (hlt : f.payload.length < 2 ^ 32) :
    (headPacket f).getMarkLen = 0 := by
  have hlong : ¬ f.second.toNat % 128 < 126 := by
    rw [second_short, shortLength, if_neg (by omega)]
    split <;> omega
  have hmark : (headPacket f).getMarkLen = (frameHead f).mark := (frameHead f).packet_getMarkLen
  rw [hmark, FrameHead.mark]
  change (if f.second.toNat % 128 < 126 then _ else if f.second = 255 then
    toInt32 (leNat (f.extra.take 4)) else 0) = _
  rw [if_neg hlong]
  by_cases h255 : f.second = 255
  · have hword : ¬ f.payload.length ≤ 65535 := by
      intro hword
      have hshort := second_short f
      rw [h255, shortLength, if_neg (by omega), if_pos hword] at hshort
      exact absurd hshort (by decide)
    have hext : f.extra = beBytes 4 0 ++ (beBytes 4 f.payload.length ++ keyBytes f.key) := by
      have h8 : beBytes 8 f.payload.length =
          beBytes 4 (f.payload.length / 256 ^ 4) ++ beBytes 4 f.payload.length := beBytes_add 4 4 _
      rw [extra, extendedLength, if_neg (by omega), if_neg hword, h8,
        Nat.div_eq_of_lt (show f.payload.length < 256 ^ 4 by omega), List.append_assoc]
    rw [if_pos h255, hext, List.take_left' (beBytes_length _ _), beBytes_zero, leNat_replicate_zero]
    rfl
  · rw [if_neg h255]

theorem headPacket_needsize {n : Nat} (hn : n < 2 ^ 31 - 14) (h : (headPacket f).getMarkLen = n) :
    (headPacket f).needsize = n := by
  rw [needsize, frameEnd, h, headPacket_wpos, toInt32_toSizeT]
  simp only [toInt32, WS_MAX_HEAD_SIZE]
  omega

theorem headPacket_isComplete {n : Nat} {body : List UInt8} (hn : n < 2 ^ 31 - 14)
    (h : (headPacket f).getMarkLen = n) (hbody : body.length = n) :
    ((headPacket f).append body).isComplete = true := by
  have hw : ((headPacket f).append body).wpos = 14 + n := by
    rw [← headPacket_wpos f, ← hbody]
    rfl
  rw [isComplete, decide_eq_true_eq, frameEnd, append_getMarkLen _ _ (headPacket_wpos f).ge, h, hw]
  simp only [toSizeT, toInt32, WS_MAX_HEAD_SIZE]
  omega

/-! ## 3. What is dispatched -/

/-- The packet that the event handler sees. -/
def decoded (p : WebSocketPacket) : WebSocketPacket :=
  if p.getMask ≠ 0 then p.decodingDatas p.getMaskKey else p

theorem decoded_head (p : WebSocketPacket) : p.decoded.m_head = p.m_head := by
  unfold decoded
  split <;> rfl

theorem decoded_wpos (p : WebSocketPacket) : p.decoded.wpos = p.wpos := by
  unfold decoded
  split <;> rfl

theorem dispatch_eq (p : WebSocketPacket) :
    p.dispatch = if p.getOpcode.toNat = 8 then [.close] else [.onMsg p.decoded] := by
  have hop : p.decoded.getOpcode = p.getOpcode := by rw [getOpcode, decoded_head, getOpcode]
  have hlt : p.getOpcode.toNat < 16 := by
    rw [getOpcode, FrameHead.and_0f_toNat]
    exact Nat.mod_lt _ (by decide)
  -- `PING_FRAME` has the FIN bit, which `getOpcode` has masked away
  have hping : ¬ p.getOpcode.toNat = PING_FRAME := by
    simp only [PING_FRAME]
    omega
  have hdef : p.dispatch =
      if p.decoded.getOpcode.toNat = CLOSE_FRAME then [.close]
      else if p.decoded.getOpcode.toNat = PING_FRAME then
        [.write p.decoded.setPongPacket.sendMsgPacket.1.sendData]
      else [.onMsg p.decoded] := rfl
  rw [hdef, hop, if_neg hping]

theorem decodeLoop_getElem? (mask : List UInt8) (rpos n : Nat) (bs : List UInt8) (j : Nat) :
    (decodeLoop mask rpos n bs)[j]? =
      if rpos ≤ j ∧ j < rpos + n then bs[j]?.map (· ^^^ mask.getD ((j - rpos) % 4) 0)
      else bs[j]? := by
  induction n with
  | zero => rw [decodeLoop, if_neg (by omega)]
  | succ n ih =>
    rw [decodeLoop, List.getElem?_modify, ih]
    by_cases hj : rpos + n = j
    · -- the place that this turn changes
      subst hj
      rw [if_neg (by omega), if_pos (by omega), Nat.add_sub_cancel_left]
      simp
    · by_cases hin : rpos ≤ j ∧ j < rpos + n
      · rw [if_pos hin, if_pos (by omega)]
        simp [hj]
      · rw [if_neg hin, if_neg (by omega)]
        simp [hj]

theorem decodeLoop_append (k : MaskKey) (head body : List UInt8) :
    decodeLoop k.bytes head.length body.length (head ++ body) = head ++ k.apply body := by
  apply List.ext_getElem?
  intro j
  rw [decodeLoop_getElem?]
  by_cases hj : j < head.length
  · rw [if_neg (by omega), List.getElem?_append_left hj, List.getElem?_append_left hj]
  · rw [List.getElem?_append_right (by omega), List.getElem?_append_right (by omega), MaskKey.apply,
      List.getElem?_mapIdx]
    by_cases hlt : j < head.length + body.length
    · rw [if_pos ⟨by omega, hlt⟩]
      rfl
    · rw [if_neg (by omega), List.getElem?_eq_none (by omega)]
      rfl

theorem received_storage (body : List UInt8) :
    ((headPacket f).append body).storage = (headPacket f).storage ++ body := by
  have hw := headPacket_wpos f
  have hlen := headPacket_storage_length f
  show (headPacket f).storage.take (headPacket f).wpos ++ body ++
    (headPacket f).storage.drop (headPacket f).wpos = _
  rw [hw, List.take_of_length_le hlen.le, List.drop_eq_nil_of_le hlen.le, List.append_nil]

theorem received_maskKey (k : MaskKey) (hk : f.key = some k) (body : List UInt8) :
    leBytes 4 ((headPacket f).append body).getMaskKey = k.bytes := by
  have hle := (frameHead f).extra_length_le
  change f.extra.length ≤ 12 at hle
  have hextra : f.extra = extendedLength f.payload.length ++ k.bytes := by rw [extra, hk, keyBytes]
  have hlen := congrArg List.length hextra
  rw [List.length_append, k.length_eq] at hlen
  -- the key ends at offset 14, so it begins at offset 10
  have hfront : (List.replicate (14 - f.extra.length) (0 : UInt8) ++
      extendedLength f.payload.length).length = 10 := by
    rw [List.length_append, List.length_replicate]
    omega
  have hstorage : ((headPacket f).append body).storage =
      (List.replicate (14 - f.extra.length) 0 ++ extendedLength f.payload.length) ++
        (k.bytes ++ body) :=
    calc
      _ = List.replicate (14 - f.extra.length) 0 ++ f.extra ++ body := by
        rw [received_storage, headPacket_storage]
      _ = List.replicate (14 - f.extra.length) 0 ++
          (extendedLength f.payload.length ++ k.bytes) ++ body := by
        rw [← hextra]
      _ = _ := by simp only [List.append_assoc]
  have hval : ((headPacket f).append body).getMaskKey = leNat k.bytes := by
    show leNat ((((headPacket f).append body).storage.drop 10).take 4) = _
    rw [hstorage, List.drop_left' hfront, List.take_left' k.length_eq]
  rw [hval]
  exact k.length_eq ▸ leBytes_leNat k.bytes

/-- The event handler sees the payload. -/
theorem decoded_body (h : f.payload.length ≤ 125) :
    ((headPacket f).append (mask f.key f.payload)).decoded.toBasePacket.body = f.payload := by
  have hw : ((headPacket f).append (mask f.key f.payload)).wpos = 14 + f.payload.length := by
    rw [← headPacket_wpos f, ← mask_length f.key f.payload]
    rfl
  have hhead := headPacket_storage_length f
  have hmark : ((headPacket f).append (mask f.key f.payload)).getMarkLen = f.payload.length := by
    rw [append_getMarkLen _ _ (headPacket_wpos f).ge, headPacket_markLen_short f h]
  have hbit : ((headPacket f).append (mask f.key f.payload)).getMask ≠ 0 ↔ f.key.isSome = true :=
    (FrameHead.getMask_ne_zero_iff (headPacket_head f)).trans (second_masked f)
  have hstorage : ((headPacket f).append (mask f.key f.payload)).decoded.storage =
      (headPacket f).storage ++ f.payload := by
    -- without a key the payload stands in the packet as it was sent
    cases hk : f.key with
    | none =>
      have hmask : ¬ ((headPacket f).append (mask f.key f.payload)).getMask ≠ 0 := by
        rw [hbit, hk]
        decide
      rw [hk] at hmask
      rw [decoded, if_neg hmask, received_storage]
      rfl
    | some k =>
      have hmask : ((headPacket f).append (mask f.key f.payload)).getMask ≠ 0 := by
        rw [hbit, hk]
        rfl
      have hkey := received_maskKey f k hk (mask f.key f.payload)
      rw [hk] at hmask hmark hkey
      have hrpos : ((headPacket f).append (mask (some k) f.payload)).rpos =
          (headPacket f).storage.length := by
        rw [hhead, ← headPacket_rpos f]
        rfl
      rw [decoded, if_pos hmask]
      show decodeLoop _ _ _ _ = _
      rw [hkey, hmark, hrpos, received_storage, Int.toNat_natCast,
        ← mask_length (some k) f.payload, decodeLoop_append]
      exact congrArg _ (mask_mask (some k) f.payload)
  rw [BasePacket.body, hstorage, decoded_wpos, hw, List.take_of_length_le
    (by rw [List.length_append, hhead]), List.drop_left' hhead]

/-- A frame with a short length is dispatched when its payload is there. -/
theorem feeds_short_iff {tr : List WebSocketReaction} {rest : List UInt8} {t : WebSocketFrames}
    (hne : f.payload ≠ []) (h : f.payload.length ≤ 125) :
    Feeds frameReader.turn (none, tr) (f.encode ++ rest) t ↔
      Feeds frameReader.turn
        (none, tr ++ ((headPacket f).append (mask f.key f.payload)).dispatch) rest t := by
  have hmark := headPacket_markLen_short f h
  have hlen := mask_length f.key f.payload
  have hbody : mask f.key f.payload ≠ [] := by
    intro hnil
    rw [hnil] at hlen
    exact hne (List.length_eq_zero_iff.mp hlen.symm)
  rw [encode_append, feeds_head_iff]
  refine PacketReader.feeds_body_iff (R := frameReader) (headPacket_isHeadFull f) hbody ?_
    (headPacket_isComplete f (by omega) hmark hlen)
  show (headPacket f).needsize = _
  rw [headPacket_needsize f (by omega) hmark, hlen]

/-- A frame with an extended length is dispatched without its payload. -/
theorem feeds_long_iff {tr : List WebSocketReaction} {rest : List UInt8} {t : WebSocketFrames}
    (h : 125 < f.payload.length) (hlt : f.payload.length < 2 ^ 32) :
    Feeds frameReader.turn (none, tr) (f.encode ++ rest) t ↔
      Feeds frameReader.turn (none, tr ++ (headPacket f).dispatch)
        (mask f.key f.payload ++ rest) t := by
  have hmark := headPacket_markLen_long f h hlt
  -- the packet is complete as soon as its head is, and the first byte of the payload dispatches it
  have hneed : (headPacket f).needsize = 0 := headPacket_needsize f (n := 0) (by decide) hmark
  have hcomplete := headPacket_isComplete f (n := 0) (by decide) hmark (List.length_nil)
  rw [append_nil] at hcomplete
  have hbody : mask f.key f.payload ++ rest ≠ [] := by
    intro hnil
    have hlen := congrArg List.length hnil
    rw [List.length_append, mask_length, List.length_nil] at hlen
    omega
  rw [encode_append, feeds_head_iff]
  exact frameReader_lawful.feeds_ready_iff (headPacket_isHeadFull f) hneed.le hcomplete hbody

end WebSocketPacket

/-! ## 4. Data frames -/

/-- A frame with a payload, neither close, ping nor pong. -/
structure DataFrame extends WebSocketFrame where
  data_opcode : toWebSocketFrame.opcode ∉ [8, 9, 10]
  payload_ne_nil : payload ≠ []
  payload_length_lt : payload.length < 2 ^ 31

namespace DataFrame

open WebSocketPacket WebSocketFrame

theorem dispatch_eq (f : DataFrame) {p : WebSocketPacket}
    (h : p.m_head = [f.first, f.toWebSocketFrame.second]) : p.dispatch = [.onMsg p.decoded] := by
  have hop : p.getOpcode.toNat = f.toWebSocketFrame.opcode := by
    exact FrameHead.getOpcode_toNat h
  rw [WebSocketPacket.dispatch_eq, if_neg]
  rw [hop]
  intro h8
  exact f.data_opcode (by rw [h8]; decide)

variable (format : Tools.Format) (base64Sha1 : List UInt8 → List UInt8) {size : UInt32}

/-- The frame has been taken for itself alone and its payload handed to the event handler once. -/
def Delivered (f : DataFrame) (c : WebSocketConnect) (t : TcpSocketBase size WebSocketConnect) :
    Prop :=
  ∃ p, t.derived.frames = (none, c.frames.2 ++ [.onMsg p]) ∧ p.toBasePacket.body = f.payload

theorem echoReads_encode_iff (f : DataFrame) (b : MessageBuffer size) (c : WebSocketConnect)
    (cut : Cut size f.encode) (d : WebSocketConnect) :
    (∃ t, EchoReads (WebSocketConnect.onMsgbuffer format base64Sha1) ⟨b.reset, c.betweenFrames⟩
        cut.reads t ∧ t.derived = d) ↔
      ∃ g, Feeds frameReader.turn (none, c.frames.2) (f.encode ++ []) g ∧
        d = c.betweenFrames.fed g f.encode := by
  have hreads := WebSocketConnect.echoReads_frames_iff format base64Sha1
    (s := ⟨b.reset, c.betweenFrames⟩) rfl rfl cut.reads d
  rw [cut.flatten_eq] at hreads
  rw [List.append_nil]
  exact hreads

theorem delivered_of_short (f : DataFrame) (b : MessageBuffer size) (c : WebSocketConnect)
    (cut : Cut size f.encode) (hshort : f.payload.length ≤ 125) :
    ∃ t, EchoReads (WebSocketConnect.onMsgbuffer format base64Sha1) ⟨b.reset, c.betweenFrames⟩
      cut.reads t ∧ f.Delivered c t := by
  have hdispatch : ((headPacket f.toWebSocketFrame).append (mask f.key f.payload)).dispatch =
      [.onMsg _] := f.dispatch_eq (headPacket_head _)
  have hfeeds : Feeds frameReader.turn (none, c.frames.2) (f.encode ++ [])
      (none, c.frames.2 ++ [.onMsg
        ((headPacket f.toWebSocketFrame).append (mask f.key f.payload)).decoded]) := by
    rw [feeds_short_iff f.toWebSocketFrame f.payload_ne_nil hshort, hdispatch]
    exact feeds_nil_iff.mpr rfl
  obtain ⟨t, ht, hd⟩ := (echoReads_encode_iff format base64Sha1 f b c cut _).mpr ⟨_, hfeeds, rfl⟩
  exact ⟨t, ht, _, by rw [hd]; rfl, decoded_body f.toWebSocketFrame hshort⟩

theorem short_of_delivered (f : DataFrame) (b : MessageBuffer size) (c : WebSocketConnect)
    (cut : Cut size f.encode) {t : TcpSocketBase size WebSocketConnect}
    (ht : EchoReads (WebSocketConnect.onMsgbuffer format base64Sha1) ⟨b.reset, c.betweenFrames⟩
      cut.reads t)
    (hdel : f.Delivered c t) : f.payload.length ≤ 125 := by
  obtain ⟨p, hframes, hbody⟩ := hdel
  obtain ⟨g, hg, hd⟩ := (echoReads_encode_iff format base64Sha1 f b c cut t.derived).mp ⟨t, ht, rfl⟩
  obtain rfl : g = (none, c.frames.2 ++ [.onMsg p]) := by rw [← hframes, hd]; rfl
  by_contra hlong
  have hlt := f.payload_length_lt
  have hrest := (feeds_long_iff f.toWebSocketFrame (by omega) (by omega)).mp hg
  rw [f.dispatch_eq (headPacket_head _)] at hrest
  -- a packet without the payload has been reported first
  have hgrow := PacketReader.feeds_report hrest
  have hlen :
      (c.frames.2 ++ [WebSocketReaction.onMsg (headPacket f.toWebSocketFrame).decoded]).length =
      (c.frames.2 ++ [WebSocketReaction.onMsg p]).length := by
    rw [List.length_append, List.length_append]
    rfl
  obtain ⟨-, heq⟩ := List.append_inj' (hgrow.eq_of_length hlen) rfl
  have hp : (headPacket f.toWebSocketFrame).decoded = p := by
    injection heq with h
    injection h
  have hempty : (headPacket f.toWebSocketFrame).decoded.toBasePacket.body = [] := by
    apply BasePacket.body_eq_nil
    rw [decoded_wpos, headPacket_wpos]
  rw [← hp, hempty] at hbody
  exact f.payload_ne_nil hbody.symm

/-- However a data frame is cut, it is delivered exactly when its length fits into seven bits. -/
theorem delivered_iff_short (f : DataFrame) (b : MessageBuffer size) (c : WebSocketConnect)
    (cut : Cut size f.encode) :
    (∃ t, EchoReads (WebSocketConnect.onMsgbuffer format base64Sha1) ⟨b.reset, c.betweenFrames⟩
        cut.reads t ∧ f.Delivered c t) ↔ f.payload.length ≤ 125 :=
  ⟨fun ⟨_, ht, hdel⟩ => short_of_delivered format base64Sha1 f b c cut ht hdel,
    delivered_of_short format base64Sha1 f b c cut⟩

/-- A binary frame of 126 zeros. -/
def zeros126 : DataFrame where
  first := 0x82
  key := none
  payload := List.replicate 126 0
  data_opcode := by decide
  payload_ne_nil := by simp
  payload_length_lt := by rw [List.length_replicate]; decide

def zeros126Cut : Cut MESSAGE_BUFFER_SIZE zeros126.encode where
  reads := [⟨zeros126.encode, List.cons_ne_nil _ _, by decide +kernel⟩]
  flatten_eq := by simp

theorem long_frame_not_delivered :
    ¬ ∃ t, EchoReads (WebSocketConnect.onMsgbuffer Tools.format fun _ => [])
        ⟨MessageBuffer.create MESSAGE_BUFFER_SIZE, WebSocketConnect.fresh.betweenFrames⟩
        zeros126Cut.reads t ∧
      zeros126.Delivered WebSocketConnect.fresh t := by
  rintro ⟨t, ht, hdel⟩
  have hshort := short_of_delivered Tools.format (fun _ => []) zeros126
    (MessageBuffer.create MESSAGE_BUFFER_SIZE)
    WebSocketConnect.fresh zeros126Cut ht hdel
  have hlen : zeros126.payload.length = 126 := List.length_replicate
  omega

end DataFrame

end LuaServer
