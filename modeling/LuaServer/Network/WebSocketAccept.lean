import LuaServer.Common.Base64
import LuaServer.Common.Sha1Digest
import LuaServer.Network.WebSocketHandshake

/-!
# WebSocketAccept — the answer that a client can check

The digest of the key of the request and a fixed text goes back in base64.
-/

open Reasoning

namespace LuaServer

/-! ## 1. The digest of a C string -/

namespace SHA1

variable {sha : SHA1} {message : List UInt8}

/-- A byte at a time. -/
theorem Absorbed.shifted (h : sha.Absorbed message) {bytes : List UInt8}
    (hlt : (message ++ bytes).length < 2 ^ 61) :
    (bytes.foldl (fun sha c => sha.input [c]) sha).Absorbed (message ++ bytes) := by
  induction bytes generalizing sha message with
  | nil =>
    rw [List.append_nil]
    exact h
  | cons c bytes ih =>
    have hinput := Absorbed.input h [c]
    rw [List.length_append, List.length_cons] at hlt
    rw [if_pos (by rw [List.length_append, List.length_singleton]; omega)] at hinput
    have hrest := ih hinput (by
      rw [List.length_append, List.length_append, List.length_singleton]
      omega)
    rwa [List.append_assoc] at hrest

theorem shiftIn_result (memory : SHA1) {text : List UInt8}
    (hlt : (text.takeWhile (· ≠ 0)).length < 2 ^ 61) :
    ((construct memory).shiftIn text).result.2 =
      some (Sha1.digest (text.takeWhile (· ≠ 0))) :=
  (Absorbed.shifted (reset_absorbed memory) hlt).result.1

end SHA1

/-! ## 2. The answer -/

/-- The memory of `message_digest` after `htonl`. -/
def Sha1Words.bytes (words : Sha1Words) : List UInt8 :=
  beBytes 4 words.A.toNat ++ (beBytes 4 words.B.toNat ++ (beBytes 4 words.C.toNat ++
    (beBytes 4 words.D.toNat ++ beBytes 4 words.E.toNat)))

theorem Sha1Words.bytes_length (words : Sha1Words) : words.bytes.length = 20 := by
  simp only [bytes, List.length_append, beBytes_length]

namespace WebSocketConnect

section
-- the memory that the object is made of, and what is in `message_digest` before
variable (memory : SHA1) (message_digest : Sha1Words)

def acceptKey (server_key : List UInt8) : List UInt8 :=
  base64_encode ((((SHA1.construct memory).shiftIn server_key).result.2.getD message_digest).bytes)

theorem acceptKey_eq {server_key : List UInt8} (hzero : 0 ∉ server_key)
    (hlt : server_key.length < 2 ^ 61) :
    acceptKey memory message_digest server_key =
      base64_encode (Sha1.digest server_key).bytes := by
  have htext : server_key.takeWhile (· ≠ 0) = server_key := by
    rw [List.takeWhile_eq_self_iff]
    intro c hc
    rw [decide_eq_true_eq]
    rintro rfl
    exact hzero hc
  have hlt' : (server_key.takeWhile (· ≠ 0)).length < 2 ^ 61 := htext.symm ▸ hlt
  have hresult := SHA1.shiftIn_result memory hlt'
  rw [acceptKey, hresult, htext, Option.getD_some]

theorem answer_length (accept host : List UInt8) :
    (answer accept host).length = accept.length + host.length + 167 := by
  have hbefore : beforeAccept.length = 97 := by decide +kernel
  have hfirst : (ascii "\r\nWebSocket-Location: ws://").length = 27 := by decide +kernel
  have hlast : (ascii "/\r\nWebSocket-Protocol: WebManagerSocket\r\n\r\n").length = 43 := by
    decide +kernel
  simp only [answer, behindAccept, List.length_append, hbefore, hfirst, hlast]
  omega

theorem sendData_bytes_of_lt {headSize : Nat} (p : BasePacket headSize) (hlt : p.wpos < 2 ^ 31) :
    p.sendData.bytes = p.storage.take p.wpos := by
  show p.storage.take (toSizeT (toInt32 p.wpos)) = _
  rw [toInt32_of_lt hlt, toSizeT_of_lt (by omega) (by omega), Int.toNat_natCast]

theorem sendData_bytes_append {msg : List UInt8} (hlt : msg.length < 2 ^ 31) :
    ((BasePacket.construct 0 []).append msg).sendData.bytes = msg := by
  have hwpos : ((BasePacket.construct 0 []).append msg).wpos = msg.length := Nat.zero_add _
  rw [sendData_bytes_of_lt _ (hwpos ▸ hlt), BasePacket.append_take_wpos]
  rfl

theorem reply_bytes {accept host : List UInt8} (hlt : accept.length + host.length < 2 ^ 30) :
    (reply accept host).bytes = answer accept host := by
  apply sendData_bytes_append
  rw [answer_length]
  omega

/-! ## 3. The handshake -/

theorem length_le_render {r : UpgradeRequest} {h : HeaderLine} (hh : h ∈ r.headers) :
    h.value.length ≤ r.render.length := by
  have hline : h.value.length ≤ (h.render ++ [10]).length := by
    simp only [HeaderLine.render, List.length_append, List.length_cons]
    omega
  have hsub : (h.render ++ [10]).Sublist (UpgradeRequest.headerLines r.headers) :=
    List.sublist_flatten_of_mem (List.mem_map_of_mem hh)
  have hlines := hsub.length_le
  rw [UpgradeRequest.render]
  simp only [List.length_append, List.length_cons]
  omega

theorem mem_of_value {r : UpgradeRequest} {name value : List UInt8}
    (h : r.value name = some value) : ∃ h ∈ r.headers, h.value = value := by
  obtain ⟨front, back, hsplit, -⟩ := List.lookup_eq_some_iff.mp h
  have hmem : (name, value) ∈ (r.headers.map HeaderLine.field).reverse := by
    rw [hsplit]
    simp
  obtain ⟨h, hh, hfield⟩ := List.mem_map.mp (List.mem_reverse.mp hmem)
  exact ⟨h, hh, congrArg Prod.snd hfield⟩

/-- A connection that reads a request alone hands `Tools::format` a key of 28 characters for
`Sec-WebSocket-Accept`, which decode to the digest of the key of the request and the fixed text.
What comes of the read is what comes of `format`: with the answer printed the client gets it before
anything else, with the `format` of the source nothing comes of it. -/
theorem accept_answers {r : UpgradeRequest} (hspelled : r.Spelled) {r₀ : Read MESSAGE_BUFFER_SIZE}
    (hbytes : r₀.bytes = r.render) (hroom : r.render.length < MESSAGE_BUFFER_SIZE.toNat) :
    ∃ key host accept, r.value (ascii "Sec-WebSocket-Key") = some key ∧
      r.value (ascii "Host") = some host ∧ accept.length = 28 ∧
      base64_decode accept = (Sha1.digest (key ++ s_key)).bytes ∧
      (∀ format fuel, echoRead (onMsgbuffer format (acceptKey memory message_digest)) fuel
          (TcpSocketBase.fresh MESSAGE_BUFFER_SIZE fresh) r₀ =
        (format ackHandshake [accept, host]).map fun msg =>
          ⟨((MessageBuffer.create MESSAGE_BUFFER_SIZE).receive r₀).reset,
            fresh.accepted host key msg⟩) ∧
      Tools.printed ackHandshake [accept, host] = some (answer accept host) ∧
      (fresh.accepted host key (answer accept host ++ [0])).frames =
        (none, [.write (reply accept host), .onHandshake]) ∧
      (reply accept host).bytes = answer accept host ∧
      Tools.format ackHandshake [accept, host] = none := by
  obtain ⟨⟨host, key⟩, hhost, hkey⟩ := r.hostAndKey
  have hroom' : r.render.length < 4096 := hroom
  obtain ⟨h, hh, rfl⟩ := mem_of_value hkey
  obtain ⟨h', hh', rfl⟩ := mem_of_value hhost
  have hkeylen := length_le_render hh
  have hhostlen := length_le_render hh'
  have hfixed : s_key.length = 36 := by decide +kernel
  have hzero : 0 ∉ h.value ++ s_key := by
    intro hmem
    rcases List.mem_append.mp hmem with hmem | hmem
    · exact h.value_text.1 hmem
    · exact absurd hmem (by decide +kernel)
  have haccept := acceptKey_eq memory message_digest hzero
    (by rw [List.length_append, hfixed]; omega)
  have hlen : (acceptKey memory message_digest (h.value ++ s_key)).length = 28 := by
    rw [haccept, base64_encode_length, Sha1Words.bytes_length]
  refine ⟨h.value, h'.value, acceptKey memory message_digest (h.value ++ s_key), hkey, hhost, hlen,
    ?_, fun format fuel => ?_, printed_ackHandshake _ _, accepted_frames _ _ _,
    reply_bytes (by rw [hlen]; omega), ?_⟩
  · rw [haccept, ← List.append_nil (base64_encode _)]
    exact base64_decode_encode _ rfl
  · exact echoRead_request format (acceptKey memory message_digest) hspelled hhost hkey hbytes hroom
      fuel
  · exact respondHandshake_format (acceptKey memory message_digest) h.value h'.value

end

/-- The request of one read. -/
theorem accept_answers_shortRequest : ∃ accept : List UInt8, accept.length = 28 ∧
    base64_decode accept = (Sha1.digest (ascii "k" ++ s_key)).bytes ∧
    (reply accept (ascii "h")).bytes = answer accept (ascii "h") := by
  let memory : SHA1 := ⟨⟨0, 0, 0, 0, 0⟩, 0, 0, Vector.replicate 64 0, 0, false, false⟩
  let whole : Read MESSAGE_BUFFER_SIZE := ⟨shortRequest.render, by decide, by decide⟩
  have hwhole : whole.bytes = shortRequest.render := rfl
  have hspelled : shortRequest.Spelled := by
    unfold UpgradeRequest.Spelled
    decide
  have hroom : shortRequest.render.length < MESSAGE_BUFFER_SIZE.toNat := by decide
  obtain ⟨key, host, accept, hkey, hhost, hlen, hdecode, -, -, -, hreply, -⟩ :=
    accept_answers memory memory.H hspelled hwhole hroom
  have hk : shortRequest.value (ascii "Sec-WebSocket-Key") = some (ascii "k") := by decide
  have hh : shortRequest.value (ascii "Host") = some (ascii "h") := by decide
  obtain rfl := Option.some.inj (hkey.symm.trans hk)
  obtain rfl := Option.some.inj (hhost.symm.trans hh)
  exact ⟨accept, hlen, hdecode, hreply⟩

end WebSocketConnect

end LuaServer
