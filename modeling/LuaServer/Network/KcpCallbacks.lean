import LuaServer.Network.KcpHost

/-!
# KcpCallbacks — callbacks that close the session they are given

`onAccept`, `onConnect` and `onUdpTimeout` are the last thing a step does with their session.  After
`onMsg` the update goes on with it: it recycles the packet, asks `ikcp_check` and notes the time.
-/

open Reasoning

namespace LuaServer

/-- The datagram sets up a session. -/
def KcpRole.isSetup (role : KcpRole) (r : Received) : Bool :=
  match role with
  | .server => decide (r.len = SESSION_PACKET_SIZE ∧ r.conv = 0 ∧ r.code = SETUP_SESSION_CODE)
  | .client => decide (r.len = SESSION_PACKET_SIZE ∧ 0 < r.conv ∧ r.code = SETUP_SESSION_CODE)

namespace KcpHost

variable {k : Ikcp} {h h' : KcpHost k} {p : KcpPtr} {s : KcpSession k}

/-- The id of the session that an action makes. -/
def openedId (role : KcpRole) (h : KcpHost k) : KcpAction → Option UInt32
  | .read _ r _ =>
    if role.isSetup r then
      match role with
      | .server => some (h.gSessionid + 1)
      | .client => some r.conv
    else none
  | _ => none

/-- The objects with the session that an action makes. -/
def opened (role : KcpRole) (h : KcpHost k) (a : KcpAction) : ObjectTable UInt32 :=
  match h.openedId role a with
  | some id => h.objects.create id
  | none => h.objects

/-- If the action makes a session of the table deliver a message, `onMsg` does not close it. -/
def KeepsSession (role : KcpRole) (h : KcpHost k) : KcpAction → Prop
  | .read _ r e => 0 < r.len → role.isSetup r = false →
    ∀ p s kcp, h.__m_mapSessions r.conv = some p → h.heap p = some s → s.__m_kcp = some kcp →
      (k.input kcp.conv kcp.state r.data).2 = 0 →
      delivers ⟨kcp.conv, (k.input kcp.conv kcp.state r.data).1⟩ e.currt = true →
      e.onMsg.closeSession = false
  | .timer p e => ∀ s kcp, h.heap p = some s → s.__m_kcp = some kcp →
      s.__m_nUpdateTime ≤ e.currt → delivers kcp e.currt = true →
      (h.__m_mapSessions s.getSessionId).isSome = true → e.onMsg.closeSession = false
  | _ => True

/-! ## 1. The outcome of each action -/

theorem openSession_becomes (hl : h.Live) (id : UInt32) (addr : Sockaddr) (e : KcpEvents) :
    Becomes h (h.objects.create id) (h.openSession id addr e) := by
  refine ⟨?_, rfl, rfl, ?_⟩
  · simp only [objects, openSession, setSession, ObjectTable.create, ObjectTable.alive]
    congr 1
    funext q
    simp only [Function.update_apply]
    split <;> rfl
  · intro q s' hq
    simp only [openSession, setSession, Function.update_apply] at hq
    split at hq
    · cases hq
      simp
    · exact hl q s' hq

theorem openSession_heap (h : KcpHost k) (id : UInt32) (addr : Sockaddr) (e : KcpEvents) :
    ∃ s, (h.openSession id addr e).heap h.created = some s :=
  ⟨_, Function.update_self _ _ _⟩

theorem setup_server (hl : h.Live) {r : Received} (hr : KcpRole.server.isSetup r = true)
    (addr : Sockaddr) (e : KcpEvents) :
    Outcome { h with gSessionid := h.gSessionid + 1 } (h.objects.create (h.gSessionid + 1)) False
      (KcpRole.server.onRead h addr r e) := by
  have hsetup := of_decide_eq_true hr
  have hlen : ¬ r.len ≤ 0 := by
    rw [hsetup.1]
    decide
  simp only [KcpRole.onRead, KcpServer.onMessage, if_neg hlen, if_pos hsetup]
  obtain ⟨s, hs⟩ := openSession_heap { h with gSessionid := h.gSessionid + 1 }
    (h.gSessionid + 1) addr e
  have hb := openSession_becomes (h := { h with gSessionid := h.gSessionid + 1 }) hl
    (h.gSessionid + 1) addr e
  exact callback_outcome ((hb.sent _).call _) hs e.onOpen not_false

theorem setup_client (hl : h.Live) {r : Received} (hr : KcpRole.client.isSetup r = true)
    (addr : Sockaddr) (e : KcpEvents) :
    Outcome h (h.objects.create r.conv) False (KcpRole.client.onRead h addr r e) := by
  have hsetup := of_decide_eq_true hr
  have hlen : ¬ r.len ≤ 0 := by
    rw [hsetup.1]
    decide
  simp only [KcpRole.onRead, KcpClient.onMessage, if_neg hlen, if_pos hsetup]
  obtain ⟨s, hs⟩ := openSession_heap h r.conv addr e
  have hb := openSession_becomes hl r.conv addr e
  exact callback_outcome (hb.call _) hs e.onOpen not_false

theorem onRead_eq_of_not_setup {role : KcpRole} {r : Received} (hr : role.isSetup r = false)
    (hlen : 0 < r.len) (addr : Sockaddr) (e : KcpEvents) :
    role.onRead h addr r e = h.onSessionMessage r e := by
  have hpos : ¬ r.len ≤ 0 := not_le.mpr hlen
  cases role with
  | server =>
    have hsetup := of_decide_eq_false hr
    simp only [KcpRole.onRead, KcpServer.onMessage, if_neg hpos, if_neg hsetup]
  | client =>
    have hsetup := of_decide_eq_false hr
    simp only [KcpRole.onRead, KcpClient.onMessage, if_neg hpos, if_neg hsetup]

theorem onRead_eq_of_empty {role : KcpRole} {r : Received} (hlen : ¬ 0 < r.len) (addr : Sockaddr)
    (e : KcpEvents) : role.onRead h addr r e = pure h := by
  have hneg : r.len ≤ 0 := not_lt.mp hlen
  cases role <;> simp only [KcpRole.onRead, KcpServer.onMessage, if_pos hneg]

/-- A datagram for a session: it is updated, or closed if `ikcp_input` refuses the datagram. -/
theorem session_outcome (hl : h.Live) (hi : h.objects.Inv) {r : Received}
    (hp : h.__m_mapSessions r.conv = some p) (hs : h.heap p = some s)
    (hid : s.getSessionId = r.conv) {kcp : Ikcpcb k} (hkcp : s.__m_kcp = some kcp) (e : KcpEvents) :
    h.Outcome h.objects
      ((k.input kcp.conv kcp.state r.data).2 = 0 ∧
        delivers ⟨kcp.conv, (k.input kcp.conv kcp.state r.data).1⟩ e.currt = true ∧
        e.onMsg.closeSession = true)
      (h.onSessionMessage r e) := by
  have hkey : h.objects.key p = some r.conv := hi.key_of_table hp
  have hconv : s.getSessionId = kcp.conv := by rw [KcpSession.getSessionId, hkcp]
  obtain ⟨r₁, hr₁⟩ : ∃ r₁, k.input kcp.conv kcp.state r.data = r₁ := ⟨_, rfl⟩
  have hb₁ := setKcp_becomes hl hs hkcp r₁.1 []
  obtain ⟨s₁, hs₁, hkcp₁, hid₁⟩ : ∃ s₁, (h.setKcp p s kcp.conv r₁.1 []).heap p = some s₁ ∧
      s₁.__m_kcp = some ⟨kcp.conv, r₁.1⟩ ∧ s₁.getSessionId = r.conv :=
    ⟨{ s with __m_kcp := some ⟨kcp.conv, r₁.1⟩ }, Function.update_self _ _ _, rfl,
      hconv.symm.trans hid⟩
  rw [onSessionMessage, hp]
  simp only [recv, useKcp_eq hs hkcp, bind, Except.bind, pure, Except.pure, hr₁]
  by_cases herror : r₁.2 = 0
  · have hclosing : (h.setKcp p s kcp.conv r₁.1 []).Closing s₁ e ↔
        e.onMsg.closeSession = true := by
      rw [Closing, hid₁]
      apply and_iff_left
      show (h.__m_mapSessions r.conv).isSome = true
      rw [hp]
      rfl
    have hout := (updateKcp_ends hb₁.live hs₁ hkcp₁ e).outcome
    rw [hclosing, hb₁.objects] at hout
    obtain ⟨u, h₂, hu, hb₂, hr₂⟩ := hout
    rw [if_pos herror, and_iff_right herror]
    exact ⟨u, h₂, hu, hb₁.trans hb₂, hr₂⟩
  · obtain ⟨h₂, hrun, hb₂⟩ := release_becomes hb₁.live hs₁
    rw [hid₁, hb₁.objects] at hb₂
    rw [if_neg herror, hrun]
    refine ⟨_, _, .inr ⟨p, ?_⟩, hb₁.trans hb₂, .inl ⟨fun hbad => herror hbad.1, rfl⟩⟩
    rw [ObjectTable.close, hkey]
    exact (if_pos (by rw [show h.objects.table r.conv = some p from hp]; rfl)).symm

theorem onSessionMessage_outcome (hl : h.Live) (hi : h.objects.Inv) (r : Received)
    (e : KcpEvents) :
    h.Outcome h.objects
      (¬ ∀ p s kcp, h.__m_mapSessions r.conv = some p → h.heap p = some s → s.__m_kcp = some kcp →
        (k.input kcp.conv kcp.state r.data).2 = 0 →
        delivers ⟨kcp.conv, (k.input kcp.conv kcp.state r.data).1⟩ e.currt = true →
        e.onMsg.closeSession = false)
      (h.onSessionMessage r e) := by
  cases hp : h.__m_mapSessions r.conv with
  | none =>
    rw [onSessionMessage, hp]
    refine ⟨_, h, .inl rfl, Becomes.refl hl, .inl ⟨?_, rfl⟩⟩
    rw [not_not]
    intro p s kcp hfalse
    cases hfalse
  | some p =>
    have hkey : (h.heap p).map KcpSession.getSessionId = some r.conv := hi.key_of_table hp
    obtain ⟨s, hs, hid⟩ := Option.map_eq_some_iff.mp hkey
    obtain ⟨kcp, hkcp, -⟩ := hl.kcp hs
    -- the session is the only one that the condition speaks of
    have hcond : (¬ ∀ p' s' kcp', some p = some p' → h.heap p' = some s' →
        s'.__m_kcp = some kcp' → (k.input kcp'.conv kcp'.state r.data).2 = 0 →
        delivers ⟨kcp'.conv, (k.input kcp'.conv kcp'.state r.data).1⟩ e.currt = true →
        e.onMsg.closeSession = false) ↔
        (k.input kcp.conv kcp.state r.data).2 = 0 ∧
          delivers ⟨kcp.conv, (k.input kcp.conv kcp.state r.data).1⟩ e.currt = true ∧
          e.onMsg.closeSession = true := by
      constructor
      · intro hnot
        by_contra hno
        apply hnot
        rintro p' s' kcp' ⟨⟩ hs' hkcp' herror hdelivers
        obtain rfl := Option.some.inj (hs.symm.trans hs')
        obtain rfl := Option.some.inj (hkcp.symm.trans hkcp')
        rw [← Bool.not_eq_true]
        exact fun hclose => hno ⟨herror, hdelivers, hclose⟩
      · rintro ⟨herror, hdelivers, hclose⟩ hall
        rw [hall p s kcp rfl hs hkcp herror hdelivers] at hclose
        cases hclose
    rw [hcond]
    exact session_outcome hl hi hp hs hid hkcp e

/-! ## 2. Runs -/

/-- What a step does to a host. -/
structure Stepped (role : KcpRole) (h : KcpHost k) (a : KcpAction) (h' : KcpHost k) : Prop where
  live : h'.Live
  gSessionid : role = .server → h'.gSessionid = (h.openedId role a).getD h.gSessionid
  misused : h'.misused = true ↔ ¬ h.KeepsSession role a
  objects : h'.objects = h.opened role a ∨ ∃ p, h'.objects = (h.opened role a).close p

theorem Outcome.stepped {role : KcpRole} {a : KcpAction} {g : KcpHost k} {bad : Prop}
    {r : KcpRun k (KcpHost k)} (ho : g.Outcome (h.opened role a) bad r) (hm : g.misused = false)
    (hg : role = .server → g.gSessionid = (h.openedId role a).getD h.gSessionid)
    (hbad : bad ↔ ¬ h.KeepsSession role a) : Stepped role h a (after r) := by
  obtain ⟨u, h₁, hu, hb, ⟨hno, rfl⟩ | ⟨hyes, rfl⟩⟩ := ho
  · refine ⟨hb.live, fun hrole => hb.gSessionid.trans (hg hrole), ?_, ?_⟩
    · rw [← hbad, after, hb.misused, hm]
      simp [hno]
    · rw [after, hb.objects]
      exact hu.imp_right fun ⟨p, hp⟩ => ⟨p, hp⟩
  · refine ⟨hb.live, fun hrole => hb.gSessionid.trans (hg hrole), ?_, ?_⟩
    · rw [← hbad]
      simp [after, hyes]
    · show h₁.objects = _ ∨ ∃ p, h₁.objects = _
      rw [hb.objects]
      exact hu.imp_right fun ⟨p, hp⟩ => ⟨p, hp⟩

/-- A call that returns and may close one session. -/
theorem stepped_of_becomes {role : KcpRole} {a : KcpAction} (hm : h.misused = false)
    (hopened : h.openedId role a = none) (hkeeps : h.KeepsSession role a)
    {t : ObjectTable UInt32} (ht : t = h.objects ∨ ∃ p, t = h.objects.close p)
    (hb : Becomes h t h') : Stepped role h a h' := by
  have hobj : h.opened role a = h.objects := by rw [opened, hopened]
  have ho : h.Outcome (h.opened role a) False (.ok h') := by
    rw [hobj]
    exact ⟨t, h', ht, hb, .inl ⟨not_false, rfl⟩⟩
  refine ho.stepped hm (fun _ => ?_) (iff_of_false not_false (not_not.mpr hkeeps))
  rw [hopened, Option.getD_none]

theorem read_stepped {role : KcpRole} (hl : h.Live) (hi : h.objects.Inv) (hm : h.misused = false)
    (addr : Sockaddr) (r : Received) (e : KcpEvents) :
    Stepped role h (.read addr r e) (after (role.onRead h addr r e)) := by
  cases hsetup : role.isSetup r with
  | true =>
    have hkeeps : h.KeepsSession role (.read addr r e) := by
      intro _ hfalse
      rw [hsetup] at hfalse
      cases hfalse
    have hbad := iff_of_false not_false (not_not.mpr hkeeps)
    cases role with
    | server =>
      have hid : h.openedId .server (.read addr r e) = some (h.gSessionid + 1) := if_pos hsetup
      have hobj : h.opened .server (.read addr r e) = h.objects.create (h.gSessionid + 1) := by
        rw [opened, hid]
      have ho := setup_server hl hsetup addr e
      rw [← hobj] at ho
      exact ho.stepped hm (fun _ => by rw [hid]; rfl) hbad
    | client =>
      have hid : h.openedId .client (.read addr r e) = some r.conv := if_pos hsetup
      have hobj : h.opened .client (.read addr r e) = h.objects.create r.conv := by
        rw [opened, hid]
      have ho := setup_client hl hsetup addr e
      rw [← hobj] at ho
      exact ho.stepped hm (fun hfalse => by cases hfalse) hbad
  | false =>
    have hid : h.openedId role (.read addr r e) = none := by simp [openedId, hsetup]
    have hobj : h.opened role (.read addr r e) = h.objects := by rw [opened, hid]
    by_cases hlen : 0 < r.len
    · rw [onRead_eq_of_not_setup hsetup hlen]
      have ho := onSessionMessage_outcome hl hi r e
      rw [← hobj] at ho
      apply ho.stepped hm (fun _ => by rw [hid]; rfl)
      rw [KeepsSession, forall_prop_of_true hlen, forall_prop_of_true hsetup]
    · rw [onRead_eq_of_empty hlen]
      exact stepped_of_becomes hm hid (fun hpos => absurd hpos hlen) (.inl rfl) (Becomes.refl hl)

theorem timer_stepped {role : KcpRole} (hl : h.Live) (hm : h.misused = false)
    (hp : h.isTimerRunning p = true) (e : KcpEvents) :
    Stepped role h (.timer p e) (after (h.update p e)) := by
  obtain ⟨s, hs⟩ : ∃ s, h.heap p = some s := by
    cases hs : h.heap p with
    | none => rw [isTimerRunning, hs] at hp; cases hp
    | some s => exact ⟨s, rfl⟩
  obtain ⟨kcp, hkcp, -⟩ := hl.kcp hs
  apply (update_outcome hl hs hkcp e).stepped hm (fun _ => rfl)
  rw [KeepsSession, Closing]
  constructor
  · rintro ⟨htime, hdelivers, hclose, hentry⟩ hkeeps
    rw [hkeeps s kcp hs hkcp htime hdelivers hentry] at hclose
    cases hclose
  · intro hnot
    by_contra hno
    apply hnot
    intro s' kcp' hs' hkcp' htime hdelivers hentry
    obtain rfl := Option.some.inj (hs.symm.trans hs')
    obtain rfl := Option.some.inj (hkcp.symm.trans hkcp')
    rw [← Bool.not_eq_true]
    exact fun hclose => hno ⟨htime, hdelivers, hclose, hentry⟩

theorem step_stepped {role : KcpRole} {a : KcpAction} (hl : h.Live) (hi : h.objects.Inv)
    (hstep : h.step role a = some h') : Stepped role h a h' := by
  unfold step at hstep
  cases hm : h.misused with
  | true => rw [hm] at hstep; cases hstep
  | false =>
    rw [hm] at hstep
    obtain ⟨r, hact, rfl⟩ := Option.map_eq_some_iff.mp hstep
    cases a with
    | read addr r e =>
      cases hact
      exact read_stepped hl hi hm addr r e
    | timer p e =>
      simp only [act] at hact
      split at hact
      · rename_i hp
        cases hact
        exact timer_stepped hl hm hp e
      · cases hact
    | closeSession p =>
      simp only [act] at hact
      split at hact
      · rename_i hp
        obtain ⟨s, hs⟩ := Option.isSome_iff_exists.mp hp
        cases hact
        obtain ⟨h₁, hrun, hb⟩ := closeSession_returns hl hs
        rw [hrun]
        exact stepped_of_becomes hm rfl trivial (.inr ⟨p, rfl⟩) hb
      · cases hact
    | sendMsg p msgtype msg =>
      simp only [act] at hact
      split at hact
      · rename_i hp
        obtain ⟨s, hs⟩ := Option.isSome_iff_exists.mp hp
        cases hact
        obtain ⟨h₁, hrun, hb⟩ := sendMsg_returns hl hs msgtype msg
        rw [hrun]
        exact stepped_of_becomes hm rfl trivial (.inl rfl) hb
      · cases hact
    | createSession server =>
      cases role with
      | server => cases hact
      | client =>
        cases hact
        exact stepped_of_becomes hm rfl trivial (.inl rfl) ((Becomes.refl hl).sent _)

/-- The sessions have their control blocks, and the table leads to sessions that are alive. -/
def Inv (h : KcpHost k) : Prop := h.Live ∧ h.objects.Inv

theorem fresh_inv : (fresh : KcpHost k).Inv := by
  constructor
  · intro p s hs
    cases hs
  · exact ObjectTable.empty_inv

theorem opened_inv (hi : h.objects.Inv) (role : KcpRole) (a : KcpAction) :
    (h.opened role a).Inv := by
  rw [opened]
  split
  · exact ObjectTable.create_inv hi _
  · exact hi

theorem step_inv {role : KcpRole} {a : KcpAction} (hinv : h.Inv)
    (hstep : h.step role a = some h') : h'.Inv := by
  obtain ⟨hl, hi⟩ := hinv
  have hspec := step_stepped hl hi hstep
  refine ⟨hspec.live, ?_⟩
  rcases hspec.objects with hobj | ⟨p, hobj⟩
  · exact hobj ▸ opened_inv hi role a
  · exact hobj ▸ ObjectTable.close_inv (opened_inv hi role a) p

theorem openings_of_stepped {role : KcpRole} {a : KcpAction} (hspec : Stepped role h a h') :
    h'.openings = (h.opened role a).openings := by
  show h'.objects.openings = _
  rcases hspec.objects with hobj | ⟨p, hobj⟩
  · rw [hobj]
  · rw [hobj, ObjectTable.close_openings]

theorem opened_eq_create {role : KcpRole} {a : KcpAction} {id : UInt32}
    (hid : h.openedId role a = some id) : h.opened role a = h.objects.create id := by
  rw [opened, hid]

theorem opened_eq_objects {role : KcpRole} {a : KcpAction} (hid : h.openedId role a = none) :
    h.opened role a = h.objects := by
  rw [opened, hid]

/-- The table stays complete exactly when the action makes no session under an id that it has. -/
theorem step_complete_iff {role : KcpRole} {a : KcpAction} (hinv : h.Inv)
    (hcomplete : h.objects.Complete) (hstep : h.step role a = some h') :
    h'.objects.Complete ↔
      ∀ id, h.openedId role a = some id → h.__m_mapSessions id = none := by
  have hspec := step_stepped hinv.1 hinv.2 hstep
  constructor
  · intro hgood id hid
    apply ObjectTable.table_eq_none_of_fresh hinv.2 (k := id)
    rw [← opened_eq_create hid, ← openings_of_stepped hspec]
    exact hgood.fresh
  · intro hfree
    have hopened : (h.opened role a).Complete := by
      cases hid : h.openedId role a with
      | none => rwa [opened_eq_objects hid]
      | some id =>
        rw [opened_eq_create hid]
        exact ObjectTable.create_complete hinv.2 hcomplete (hfree id hid)
    rcases hspec.objects with hobj | ⟨p, hobj⟩
    · rwa [hobj]
    · rw [hobj]
      exact ObjectTable.close_complete hopened p

/-- No run uses a session after `destroyConnect` exactly when no `onMsg` closes the session of the
table whose message it is given. -/
theorem no_use_after_destroy_iff (role : KcpRole) (actions : List KcpAction) :
    Always (fun h : KcpHost k => h.misused = false) (step role) fresh actions ↔
      Meets (KeepsSession role) (step role) (fresh : KcpHost k) actions := by
  apply always_iff_meets (I := Inv)
  · intro h a h' hinv hstep
    exact step_inv hinv hstep
  · intro h a h' hinv _ hstep
    have hspec := (step_stepped hinv.1 hinv.2 hstep).misused
    rw [← Bool.not_eq_true, hspec, not_not]
  · exact fresh_inv
  · rfl

end KcpHost

/-! ## 3. A message that closes its session -/

/-- What `ikcp.cpp` keeps for messages of one segment that arrive in order. -/
structure InOrder where
  rcv_queue : List (List UInt8)
  rcv_nxt : Nat
  -- `sn` and `ts` of the segments to acknowledge
  acklist : List (List UInt8 × List UInt8)

/-- `ikcp.cpp` on such messages: a datagram holds one segment, `cmd` is `IKCP_CMD_PUSH` and `frg` is
0.  An update acknowledges what has arrived. -/
def inOrder : Ikcp where
  State := InOrder
  create _ := ⟨[], 0, []⟩
  nodelay s := s
  input conv s data :=
    if data.length < 24 then (s, -1)
    else if leNat (data.take 4) ≠ conv.toNat then (s, -1)
    else if (data.drop 4).head? = some 81 ∧ leNat ((data.drop 12).take 4) = s.rcv_nxt then
      (⟨s.rcv_queue ++ [data.drop 24], s.rcv_nxt + 1,
        s.acklist ++ [((data.drop 12).take 4, (data.drop 8).take 4)]⟩, 0)
    else (s, -3)
  update conv s _ :=
    (⟨s.rcv_queue, s.rcv_nxt, []⟩, s.acklist.map fun ack =>
      leBytes 4 conv.toNat ++ [82, 0] ++ leBytes 2 (128 - s.rcv_queue.length) ++ ack.2 ++ ack.1 ++
        leBytes 4 s.rcv_nxt ++ leBytes 4 0)
  peeksize s :=
    match s.rcv_queue with
    | [] => -1
    | seg :: _ => seg.length
  recv s _ :=
    match s.rcv_queue with
    | [] => (s, -1, [])
    | seg :: rest => (⟨rest, s.rcv_nxt, s.acklist⟩, seg.length, seg)
  check _ current := current + 10
  send s _ := (s, 0)
  flush _ s := (s, [])

/-- The datagram that asks for a session. -/
def setupRequest : Received := ⟨[0, 0, 0, 0, 110], 5, by decide, by decide⟩

/-- A push segment of session 1 with the message "hello". -/
def helloSegment : Received :=
  ⟨[1, 0, 0, 0, 81, 0, 128, 0, 0, 0, 0, 0, 0, 0, 0, 0, 0, 0, 0, 0, 5, 0, 0, 0,
    104, 101, 108, 108, 111], 29, by decide, by decide⟩

/-- Callbacks of an application that closes a session when it gets a message. -/
def closeOnMsg : KcpEvents := ⟨0, 0, ⟨[], false⟩, ⟨[], true⟩, ⟨[], false⟩⟩

namespace KcpHost

/-- A server whose application closes the session in `onMsg` goes on with the deleted session. -/
theorem onMsg_close_misuses :
    ∃ h, run (step .server) (fresh : KcpHost inOrder)
        [.read [] setupRequest closeOnMsg, .read [] helloSegment closeOnMsg] = some h ∧
      h.destroyed = [0] ∧
      ¬ Always (fun h : KcpHost inOrder => h.misused = false) (step .server) fresh
        [.read [] setupRequest closeOnMsg, .read [] helloSegment closeOnMsg] := by
  refine ⟨_, rfl, rfl, ?_⟩
  rintro ⟨-, hsetup⟩
  obtain ⟨-, hmsg⟩ := hsetup _ rfl
  cases hmsg _ rfl

end KcpHost

end LuaServer
