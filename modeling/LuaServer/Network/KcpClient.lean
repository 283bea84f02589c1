import LuaServer.Network.KcpCallbacks

/-!
# KcpClient — a client and a server on a network that loses, repeats and reorders

Every datagram that has been sent to a party can reach it at any later time, any number of times or
never.  The reply that sets up a session makes one each time it arrives.
-/

open Reasoning

namespace LuaServer

structure KcpNetwork (k : Ikcp) where
  server : KcpHost k
  client : KcpHost k

inductive KcpNetworkAction
  -- a timer, or a call of the application
  | server (a : KcpAction)
  | client (a : KcpAction)
  -- the datagram with this number reaches the other party; `stale` is what its buffer holds behind
  | toServer (i : Nat) (stale : List UInt8) (e : KcpEvents)
  | toClient (i : Nat) (stale : List UInt8) (e : KcpEvents)

def KcpAction.isRead : KcpAction → Bool
  | .read _ _ _ => true
  | _ => false

namespace KcpNetwork

variable {k : Ikcp}

def fresh : KcpNetwork k := ⟨KcpHost.fresh, KcpHost.fresh⟩

/-- The datagram with number `i` of those sent, if it goes to `addr`. -/
def arriving (sent : List KcpDatagram) (addr : Sockaddr) (i : Nat) (stale : List UInt8) :
    Option Received := do
  let d ← sent[i]?
  if d.addr = addr then
    if hhead : 5 ≤ (d.bytes ++ stale).length then
      some ⟨d.bytes ++ stale, d.bytes.length, hhead, by
        rw [List.length_append]
        omega⟩
    else none
  else none

section
variable (serverAddr clientAddr : Sockaddr)

def step (n : KcpNetwork k) : KcpNetworkAction → Option (KcpNetwork k)
  | .server a =>
    if a.isRead then none else (n.server.step .server a).map fun s => { n with server := s }
  | .client a =>
    if a.isRead then none else (n.client.step .client a).map fun c => { n with client := c }
  | .toServer i stale e => do
    let r ← arriving n.client.sent serverAddr i stale
    (n.server.step .server (.read clientAddr r e)).map fun s => { n with server := s }
  | .toClient i stale e => do
    let r ← arriving n.server.sent clientAddr i stale
    (n.client.step .client (.read serverAddr r e)).map fun c => { n with client := c }

/-- Every session of the client that has not been released is in the table under its id, and
`onConnect` was called for it when no other session had that id. -/
structure SessionsKept (n : KcpNetwork k) : Prop where
  kept : ∀ p < n.client.created, p ∉ n.client.destroyed →
    ∃ s, n.client.heap p = some s ∧ n.client.__m_mapSessions s.getSessionId = some p
  connected_once : ∀ o ∈ n.client.openings, o.key ∉ o.others

/-- A reply that sets up a session reaches the client when its table has no session with that id. -/
def NewConversation (n : KcpNetwork k) : KcpNetworkAction → Prop
  | .toClient i stale _ => ∀ r, arriving n.server.sent clientAddr i stale = some r →
      KcpRole.client.isSetup r = true → n.client.__m_mapSessions r.conv = none
  | _ => True

theorem sessionsKept_iff {n : KcpNetwork k} (hinv : n.client.objects.Inv) :
    n.SessionsKept ↔ n.client.objects.Complete := by
  constructor
  · intro hkept
    refine ⟨?_, hkept.connected_once⟩
    intro p id hp
    obtain ⟨hlt, hmem⟩ := (hinv.alive_iff p).mp (by rw [hp]; rfl)
    obtain ⟨s, hs, htable⟩ := hkept.kept p hlt hmem
    have hkey : n.client.objects.key p = some s.getSessionId := by
      show (n.client.heap p).map _ = _
      rw [hs, Option.map_some]
    rw [hp] at hkey
    cases hkey
    exact htable
  · intro hcomplete
    refine ⟨?_, hcomplete.fresh⟩
    intro p hlt hmem
    obtain ⟨id, hid⟩ := Option.isSome_iff_exists.mp ((hinv.alive_iff p).mpr ⟨hlt, hmem⟩)
    obtain ⟨s, hs, rfl⟩ := Option.map_eq_some_iff.mp (show (n.client.heap p).map _ = _ from hid)
    exact ⟨s, hs, hcomplete.found hid⟩

theorem step_cases {n n' : KcpNetwork k} {a : KcpNetworkAction}
    (h : n.step serverAddr clientAddr a = some n') :
    n'.client = n.client ∧ n.NewConversation clientAddr a ∨
      ∃ b, n.client.step .client b = some n'.client ∧ (n.NewConversation clientAddr a ↔
        ∀ id, n.client.openedId .client b = some id → n.client.__m_mapSessions id = none) := by
  cases a with
  | server a =>
    simp only [step] at h
    split at h
    · cases h
    · obtain ⟨s, -, rfl⟩ := Option.map_eq_some_iff.mp h
      exact .inl ⟨rfl, trivial⟩
  | client a =>
    simp only [step] at h
    split at h
    · cases h
    · rename_i hread
      obtain ⟨c, hc, rfl⟩ := Option.map_eq_some_iff.mp h
      refine .inr ⟨a, hc, iff_of_true trivial fun id hid => ?_⟩
      -- only a read makes a session
      cases a with
      | read addr r e => exact absurd rfl hread
      | _ => cases hid
  | toServer i stale e =>
    obtain ⟨r, -, h⟩ := Option.bind_eq_some_iff.mp h
    obtain ⟨s, -, rfl⟩ := Option.map_eq_some_iff.mp h
    exact .inl ⟨rfl, trivial⟩
  | toClient i stale e =>
    obtain ⟨r, hr, h⟩ := Option.bind_eq_some_iff.mp h
    obtain ⟨c, hc, rfl⟩ := Option.map_eq_some_iff.mp h
    refine .inr ⟨_, hc, ?_⟩
    simp only [NewConversation, KcpHost.openedId]
    constructor
    · intro hnew id hid
      split at hid
      · rename_i hsetup
        cases hid
        exact hnew r hr hsetup
      · cases hid
    · intro hfree r' hr' hsetup
      obtain rfl := Option.some.inj (hr.symm.trans hr')
      exact hfree r.conv (if_pos hsetup)

/-- On any network the client keeps every session exactly when each reply that reaches it brings the
id of a conversation that it does not have. -/
theorem sessions_kept_iff (actions : List KcpNetworkAction) :
    Always SessionsKept (step serverAddr clientAddr) (fresh : KcpNetwork k) actions ↔
      Meets (NewConversation clientAddr) (step serverAddr clientAddr) (fresh : KcpNetwork k)
        actions := by
  apply always_iff_meets (I := fun n => n.client.Inv)
  · intro n a n' hinv hstep
    rcases step_cases serverAddr clientAddr hstep with ⟨hsame, -⟩ | ⟨b, hb, -⟩
    · rwa [hsame]
    · exact KcpHost.step_inv hinv hb
  · intro n a n' hinv hgood hstep
    rw [sessionsKept_iff hinv.2] at hgood
    rcases step_cases serverAddr clientAddr hstep with ⟨hsame, hnew⟩ | ⟨b, hb, hnew⟩
    · refine iff_of_true ((sessionsKept_iff (hsame ▸ hinv.2)).mpr ?_) hnew
      rwa [hsame]
    · rw [sessionsKept_iff (KcpHost.step_inv hinv hb).2, hnew]
      exact KcpHost.step_complete_iff hinv hgood hb
  · exact KcpHost.fresh_inv
  · exact (sessionsKept_iff KcpHost.fresh_inv.2).mpr ObjectTable.empty_complete

end

/-- A step in which the callbacks do nothing. -/
def quiet : KcpEvents := ⟨0, 0, ⟨[], false⟩, ⟨[], false⟩, ⟨[], false⟩⟩

/-- The network delivers the reply of the server twice: the first session is alive and in no
table. -/
theorem repeated_reply_forgets :
    ∃ n, run (step [1] [2]) (fresh : KcpNetwork inOrder)
        [.client (.createSession [1]), .toServer 0 [] quiet, .toClient 0 [] quiet,
          .toClient 0 [] quiet] = some n ∧
      n.client.created = 2 ∧ n.client.destroyed = [] ∧ n.client.__m_mapSessions 1 = some 1 ∧
      ¬ Always SessionsKept (step [1] [2]) (fresh : KcpNetwork inOrder)
        [.client (.createSession [1]), .toServer 0 [] quiet, .toClient 0 [] quiet,
          .toClient 0 [] quiet] := by
  refine ⟨_, rfl, rfl, rfl, rfl, ?_⟩
  intro hgood
  have hkept := hgood.reached rfl
  apply hkept.connected_once ⟨1, 1, [1]⟩
  · exact List.mem_cons_of_mem _ List.mem_cons_self
  · exact List.mem_cons_self

end KcpNetwork

end LuaServer
