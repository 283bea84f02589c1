import LuaServer.Network.KcpPacket

/-!
# KcpDatagram — a datagram and the buffer that it is read into

All datagrams are read into one static array, and behind a datagram stand the bytes of earlier ones.
`onMessage` takes the id and the code from the front of the array before it looks at the length: a
datagram shorter than the id is routed by what an earlier one has left there.
-/

open Reasoning

namespace LuaServer

abbrev bufflen : Nat := 65536

theorem five_le_bufflen : 5 ≤ bufflen := by decide

/-- The static array of `alloc_buffer`. -/
structure StaticBuffer where
  buff : List UInt8
  size : buff.length = bufflen

theorem Received.leBytes_conv (r : Received) : leBytes 4 r.conv.toNat = r.buff.take 4 := by
  have hlen : (r.buff.take 4).length = 4 := by
    have hhead := r.head_le
    rw [List.length_take]
    omega
  have hlt := leNat_lt (r.buff.take 4)
  rw [hlen] at hlt
  rw [conv, UInt32.toNat_ofNat_of_lt' hlt]
  have hbytes := leBytes_leNat (r.buff.take 4)
  rwa [hlen] at hbytes

namespace StaticBuffer

variable {b b' : StaticBuffer} {bytes : List UInt8}

/-- The array after a datagram has been read into it; what does not fit is cut off. -/
def receive (b : StaticBuffer) (bytes : List UInt8) : StaticBuffer where
  buff := bytes.take bufflen ++ b.buff.drop bytes.length
  size := by
    rw [List.length_append, List.length_take, List.length_drop, b.size]
    omega

/-- What `on_read` is called with. -/
def received (b : StaticBuffer) (bytes : List UInt8) : Received where
  buff := (b.receive bytes).buff
  len := (bytes.take bufflen).length
  head_le := by
    rw [(b.receive bytes).size]
    exact five_le_bufflen
  len_le := by
    rw [(b.receive bytes).size, List.length_take]
    omega

theorem received_data : (b.received bytes).data = bytes.take bufflen :=
  List.take_left

theorem received_len_pos (h : 1 ≤ bytes.length) : 0 < (b.received bytes).len := by
  have hsize := five_le_bufflen
  apply Int.natCast_pos.mpr
  rw [List.length_take]
  omega

/-- The front of the array belongs to the datagram. -/
theorem received_take {n : Nat} (hn : n ≤ 5) (h : n ≤ bytes.length) :
    (b.received bytes).buff.take n = bytes.take n := by
  have hsize := five_le_bufflen
  have hle : n ≤ (bytes.take bufflen).length := by
    rw [List.length_take]
    omega
  change (bytes.take bufflen ++ b.buff.drop bytes.length).take n = _
  rw [List.take_append_of_le_length hle, List.take_take, Nat.min_eq_left (by omega)]

theorem received_conv (h : 4 ≤ bytes.length) :
    (b.received bytes).conv = UInt32.ofNat (leNat (bytes.take 4)) := by
  rw [Received.conv, received_take (by decide) h]

theorem prefix_conv (h : bytes.length < 4) :
    bytes <+: leBytes 4 (b.received bytes).conv.toNat := by
  have hsize := five_le_bufflen
  rw [Received.leBytes_conv]
  change bytes <+: (bytes.take bufflen ++ b.buff.drop bytes.length).take 4
  rw [List.take_of_length_le (by omega : bytes.length ≤ bufflen)]
  apply List.prefix_take_iff.mpr
  exact ⟨List.prefix_append _ _, by omega⟩

theorem received_code (h : 5 ≤ bytes.length) :
    (b.received bytes).code = (b'.received bytes).code := by
  have hfront : ∀ buff : StaticBuffer, (buff.received bytes).code = (bytes.take 5).getD 4 0 := by
    intro buff
    rw [← received_take (b := buff) le_rfl h, Received.code, List.getD_eq_getElem?_getD,
      List.getD_eq_getElem?_getD, List.getElem?_take_of_lt (by decide)]
  rw [hfront, hfront]

/-- An array with some bytes at its front. -/
def filled (front : List UInt8) : StaticBuffer :=
  ⟨resize front bufflen, resize_length front bufflen⟩

/-- A short datagram that the array's front begins with leaves the id at the front as it was. -/
theorem filled_conv {rest : List UInt8} (h : (bytes ++ rest).length = 4) :
    ((filled (bytes ++ rest)).received bytes).conv = UInt32.ofNat (leNat (bytes ++ rest)) := by
  have hsize := five_le_bufflen
  have hbytes : bytes.take bufflen = bytes := by
    apply List.take_of_length_le
    rw [List.length_append] at h
    omega
  have hfront : (bytes ++ rest).take bufflen = bytes ++ rest := by
    apply List.take_of_length_le
    omega
  change UInt32.ofNat (leNat ((bytes.take bufflen ++
    (resize (bytes ++ rest) bufflen).drop bytes.length).take 4)) = _
  rw [resize, hfront, hbytes, List.append_assoc, List.drop_left, ← List.append_assoc, ← h,
    List.take_left]

end StaticBuffer

namespace KcpHost

variable {k : Ikcp} {h : KcpHost k} {p : KcpPtr}

/-! ## 1. What a host reads of a datagram -/

/-- The id counts, the code only in a datagram of five bytes, and of the rest the datagram's own
bytes. -/
theorem onRead_congr {r r' : Received} (hlen : r.len = r'.len) (hdata : r.data = r'.data)
    (hconv : r.conv = r'.conv) (hcode : r.len = SESSION_PACKET_SIZE → r.code = r'.code)
    (role : KcpRole) (addr : Sockaddr) (e : KcpEvents) :
    role.onRead h addr r e = role.onRead h addr r' e := by
  have hsession : h.onSessionMessage r e = h.onSessionMessage r' e := by
    rw [onSessionMessage, onSessionMessage, hconv, hdata]
  by_cases hfive : r.len = SESSION_PACKET_SIZE
  · have hcode' := hcode hfive
    cases role with
    | server =>
      simp only [KcpRole.onRead, KcpServer.onMessage, ← hlen, ← hconv, ← hcode', hsession]
    | client =>
      simp only [KcpRole.onRead, KcpClient.onMessage, ← hlen, ← hconv, ← hcode', hsession]
  · have hfive' : r'.len ≠ SESSION_PACKET_SIZE := hlen ▸ hfive
    cases role with
    | server =>
      simp only [KcpRole.onRead, KcpServer.onMessage, ← hlen, hfive, false_and, if_false, hsession]
    | client =>
      simp only [KcpRole.onRead, KcpClient.onMessage, ← hlen, hfive, false_and, if_false, hsession]

theorem isSetup_of_short {r : Received} (hshort : r.len < 5) (role : KcpRole) :
    role.isSetup r = false := by
  have hlen : ¬ r.len = SESSION_PACKET_SIZE := by
    intro heq
    rw [heq] at hshort
    exact absurd hshort (by decide)
  cases role with
  | server => exact decide_eq_false fun hsetup => hlen hsetup.1
  | client => exact decide_eq_false fun hsetup => hlen hsetup.1

/-! ## 2. A datagram that `ikcp_input` refuses -/

theorem session_releases (hinv : h.Inv) {r : Received} (hp : h.__m_mapSessions r.conv = some p)
    (hrefuses : ∀ conv state, (k.input conv state r.data).2 ≠ 0) (e : KcpEvents) :
    ∃ h', h.onSessionMessage r e = .ok h' ∧ h'.destroyed = h.destroyed ++ [p] := by
  have hkey : (h.heap p).map KcpSession.getSessionId = some r.conv := hinv.2.key_of_table hp
  obtain ⟨s, hs, hid⟩ := Option.map_eq_some_iff.mp hkey
  obtain ⟨kcp, hkcp, -⟩ := hinv.1.kcp hs
  have hb := setKcp_becomes hinv.1 hs hkcp (k.input kcp.conv kcp.state r.data).1 []
  obtain ⟨h', hrun, hreleased⟩ := release_becomes hb.live (Function.update_self _ _ _)
  rw [onSessionMessage, hp]
  simp only [recv, useKcp_eq hs hkcp, bind, Except.bind, pure, Except.pure]
  rw [if_neg (hrefuses kcp.conv kcp.state), hrun]
  refine ⟨_, rfl, ?_⟩
  have hobjects := congrArg ObjectTable.destroyed hreleased.objects
  rw [hb.objects] at hobjects
  exact hobjects

/-! ## 3. Two buffers -/

theorem ofNat_leNat_inj {x y : List UInt8} (hx : x.length = 4) (hy : y.length = 4)
    (heq : UInt32.ofNat (leNat x) = UInt32.ofNat (leNat y)) : x = y := by
  have hnat : ∀ {z : List UInt8}, z.length = 4 → (UInt32.ofNat (leNat z)).toNat = leNat z := by
    intro z hz
    apply UInt32.toNat_ofNat_of_lt'
    have hlt := leNat_lt z
    rw [hz] at hlt
    exact hlt
  have hval : leNat x = leNat y := by rw [← hnat hx, heq, hnat hy]
  rw [← leBytes_leNat x, ← leBytes_leNat y, hx, hy, hval]

theorem ofNat_leNat_leBytes (id : UInt32) : UInt32.ofNat (leNat (leBytes 4 id.toNat)) = id := by
  rw [leNat_leBytes_of_lt id.toNat_lt]
  exact UInt32.ofNat_toNat

/-- Two arrays in which a short datagram finds two different ids. -/
theorem exists_conv_ne {bytes : List UInt8} (hshort : bytes.length < 4) {id : UInt32}
    (hpre : bytes <+: leBytes 4 id.toNat) :
    ∃ b b' : StaticBuffer, (b.received bytes).conv = id ∧ (b'.received bytes).conv ≠ id := by
  obtain ⟨rest, hrest⟩ := hpre
  have hlen : (bytes ++ rest).length = 4 := by rw [hrest, leBytes_length]
  have hlen' : (bytes ++ rest.map (· + 1)).length = 4 := by
    rw [List.length_append, List.length_map, ← List.length_append, hlen]
  refine ⟨.filled (bytes ++ rest), .filled (bytes ++ rest.map (· + 1)), ?_, ?_⟩
  · rw [StaticBuffer.filled_conv hlen, hrest, ofNat_leNat_leBytes]
  · rw [StaticBuffer.filled_conv hlen']
    intro heq
    rw [← ofNat_leNat_leBytes id, ← hrest] at heq
    have hmap := List.append_cancel_left (ofNat_leNat_inj hlen' hlen heq)
    cases rest with
    | nil =>
      rw [List.append_nil] at hlen
      omega
    | cons c cs =>
      have hc : c + 1 = c := (List.cons.inj hmap).1
      simp at hc

/-- A datagram of less than four bytes has one effect in all arrays exactly when no array makes it
hit a session. -/
theorem short_same_iff (hinv : h.Inv)
    (hrefuses : ∀ conv state data, data.length < 24 → (k.input conv state data).2 ≠ 0)
    {bytes : List UInt8} (hshort : bytes.length < 4) (e : KcpEvents) :
    (∀ b b' : StaticBuffer,
      h.onSessionMessage (b.received bytes) e = h.onSessionMessage (b'.received bytes) e) ↔
      ∀ id, (h.__m_mapSessions id).isSome = true → ¬ bytes <+: leBytes 4 id.toNat := by
  have hrefused : ∀ (b : StaticBuffer) conv state,
      (k.input conv state (b.received bytes).data).2 ≠ 0 := by
    intro b conv state
    apply hrefuses
    rw [StaticBuffer.received_data, List.length_take]
    omega
  constructor
  · intro hsame id hid hpre
    obtain ⟨p, hp⟩ := Option.isSome_iff_exists.mp hid
    obtain ⟨b, b', hconv, hconv'⟩ := exists_conv_ne hshort hpre
    rw [← hconv] at hp
    obtain ⟨h₁, hrun₁, hdestroyed₁⟩ := session_releases hinv hp (hrefused b) e
    have heq := hsame b b'
    rw [hrun₁] at heq
    cases hp' : h.__m_mapSessions (b'.received bytes).conv with
    | none =>
      -- one effect is to release the session, the other is none
      rw [onSessionMessage, hp'] at heq
      cases heq
      simp at hdestroyed₁
    | some p' =>
      obtain ⟨h₂, hrun₂, hdestroyed₂⟩ := session_releases hinv hp' (hrefused b') e
      rw [hrun₂] at heq
      cases heq
      have hobject : p = p' :=
        List.singleton_inj.mp (List.append_cancel_left (hdestroyed₁.symm.trans hdestroyed₂))
      have hkey := hinv.2.key_of_table hp
      rw [hobject, hinv.2.key_of_table hp', hconv] at hkey
      exact hconv' (Option.some.inj hkey)
  · intro hnone
    have hmiss : ∀ b : StaticBuffer, h.onSessionMessage (b.received bytes) e = pure h := by
      intro b
      have htable : h.__m_mapSessions (b.received bytes).conv = none := by
        rw [← Option.not_isSome_iff_eq_none]
        intro hsome
        exact hnone _ hsome (StaticBuffer.prefix_conv hshort)
      rw [onSessionMessage, htable]
    intro b b'
    rw [hmiss b, hmiss b']

/-- The effect of a datagram is the same whatever the array holds behind it exactly when the
datagram brings a whole id, or no session has an id that begins with its bytes. -/
theorem effect_same_iff
    (hrefuses : ∀ conv state data, data.length < 24 → (k.input conv state data).2 ≠ 0)
    {role : KcpRole} {actions : List KcpAction} (hrun : run (step role) fresh actions = some h)
    (addr : Sockaddr) {bytes : List UInt8} (hpos : 1 ≤ bytes.length) (e : KcpEvents) :
    (∀ b b' : StaticBuffer,
      role.onRead h addr (b.received bytes) e = role.onRead h addr (b'.received bytes) e) ↔
      4 ≤ bytes.length ∨
        ∀ id, (h.__m_mapSessions id).isSome = true → ¬ bytes <+: leBytes 4 id.toNat := by
  have hinv : h.Inv := Reachable.invariant (fun _ _ _ => step_inv) ⟨actions, hrun⟩ fresh_inv
  by_cases hlong : 4 ≤ bytes.length
  · apply iff_of_true ?_ (.inl hlong)
    intro b b'
    have hlen : (b.received bytes).len = (b'.received bytes).len := rfl
    apply onRead_congr hlen
    · rw [StaticBuffer.received_data, StaticBuffer.received_data]
    · rw [StaticBuffer.received_conv hlong, StaticBuffer.received_conv hlong]
    · intro hfive
      apply StaticBuffer.received_code
      have htake : (bytes.take bufflen).length = 5 := Int.natCast_inj.mp hfive
      rw [← htake]
      exact List.length_take_le' _ _
  · -- the code plays no part: the datagram goes to the session of the id that the array gives
    have hread : ∀ b : StaticBuffer,
        role.onRead h addr (b.received bytes) e = h.onSessionMessage (b.received bytes) e := by
      intro b
      apply onRead_eq_of_not_setup ?_ (StaticBuffer.received_len_pos hpos)
      apply isSetup_of_short
      have htake := List.length_take_le' bufflen bytes
      change ((bytes.take bufflen).length : Int) < 5
      omega
    simp only [hread, or_iff_right hlong]
    exact short_same_iff hinv hrefuses (by omega) e

theorem inOrder_refuses (conv : UInt32) (state : inOrder.State) (data : List UInt8)
    (hshort : data.length < 24) : (inOrder.input conv state data).2 ≠ 0 := by
  simp only [inOrder, if_pos hshort]
  decide

/-- One byte reaches a server with session 1. -/
theorem effect_same_iff_one_byte :
    ∃ h, run (step .server) (fresh : KcpHost inOrder) [.read [] setupRequest idleEvents] = some h ∧
      ((∀ b b' : StaticBuffer, KcpRole.server.onRead h [] (b.received [1]) idleEvents =
          KcpRole.server.onRead h [] (b'.received [1]) idleEvents) ↔
        4 ≤ 1 ∨ ∀ id, (h.__m_mapSessions id).isSome = true → ¬ [1] <+: leBytes 4 id.toNat) :=
  ⟨_, rfl, @effect_same_iff inOrder _ inOrder_refuses .server
    [.read [] setupRequest idleEvents] rfl [] [1] le_rfl idleEvents⟩

/-- A server with session 1 gets a datagram of the byte 1.  In a clean array it closes the session;
behind a stray datagram of four bytes it does nothing. -/
theorem short_datagram_closes :
    ∃ h, run (step .server) (fresh : KcpHost inOrder) [.read [] setupRequest idleEvents] = some h ∧
      (after (KcpRole.server.onRead h [] ((StaticBuffer.filled []).received [1])
        idleEvents)).destroyed = [0] ∧
      (after (KcpRole.server.onRead h []
        (((StaticBuffer.filled []).receive [9, 9, 9, 9]).received [1]) idleEvents)).destroyed = [] ∧
      ¬ ∀ b b' : StaticBuffer, KcpRole.server.onRead h [] (b.received [1]) idleEvents =
        KcpRole.server.onRead h [] (b'.received [1]) idleEvents := by
  refine ⟨_, rfl, by decide +kernel, by decide +kernel, ?_⟩
  intro hsame
  have heq := congrArg (fun r => (after r).destroyed)
    (hsame (.filled []) ((StaticBuffer.filled []).receive [9, 9, 9, 9]))
  exact absurd heq (by decide +kernel)

end KcpHost

end LuaServer
