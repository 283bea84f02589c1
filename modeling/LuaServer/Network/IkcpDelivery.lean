import LuaServer.Network.IkcpLink

/-!
# IkcpDelivery — what two control blocks guarantee over a network that keeps nothing

Whatever the network loses, repeats and reorders: what `ikcp_recv` hands out is what `ikcp_send` has
taken, in its order, and nothing that has been taken is forgotten before it has arrived.
-/

open Reasoning

namespace LuaServer

namespace IkcpLink

variable {conv : UInt32} {actions : List (Side × IkcpCall)} {l : IkcpLink}
  {t : Side → Transfer Fragment}

/-- A run of two new control blocks in which neither makes `2 ^ 31` segments. -/
structure Leads (conv : UInt32) (actions : List (Side × IkcpCall)) (l : IkcpLink) : Prop where
  run : run step (create conv) actions = some l
  few : Allowed FewSegments step (create conv) actions

theorem Leads.inv (h : Leads conv actions l) : ∃ t, Inv conv l t :=
  h.few.invariant (I := fun l => ∃ t, Inv conv l t)
    (fun _ _ _ ⟨_, ht⟩ hfew hstep => step_inv ht hfew hstep) h.run ⟨_, create_inv conv⟩

/-- A message from the left, and its acknowledgement from the right. -/
def greeting : List (Side × IkcpCall) :=
  [(.left, .ikcp_nodelay 1 10 2 1), (.right, .ikcp_nodelay 1 10 2 1),
    (.left, .ikcp_send [104, 105]), (.left, .ikcp_update 0), (.right, .ikcp_input 0),
    (.right, .ikcp_recv 100), (.right, .ikcp_update 5), (.left, .ikcp_input 0)]

def greeted : IkcpLink := (run step (create 7) greeting).get (by decide +kernel)

theorem greeted_leads : Leads 7 greeting greeted :=
  ⟨(Option.some_get _).symm, by decide +kernel⟩

/-! ## 1. Order -/

/-- What has been handed out are the first messages, and the rest is on its way. -/
theorem Inv.split (h : Inv conv l t) (s : Side) :
    ∃ ms, ((l s.peer).delivered ++ ms).flatten = (l s).taken.flatten ∧
      ((l s).kcp.stream = 0 → (l s).taken = (l s.peer).delivered ++ ms) ∧
      Messages ((t s).sent.drop (t s).taken ++ (t s).waiting) ms := by
  obtain ⟨ms, hms, hflat, hmessages⟩ := (h.side s).messages
  have hdelivered := (h.side s.peer).delivered
  rw [s.peer_peer] at hdelivered
  have hsplit : (t s).sent ++ (t s).waiting =
      (t s).sent.take (t s).taken ++ ((t s).sent.drop (t s).taken ++ (t s).waiting) := by
    rw [← List.append_assoc, List.take_append_drop]
  obtain ⟨ms', rfl, hrest⟩ := hdelivered.split (hsplit ▸ hms)
  exact ⟨ms', hflat, fun hzero => (hmessages hzero).symm, hrest⟩

/-- Messages arrive whole, once and in order. -/
theorem delivered_in_order (h : Leads conv actions l) (s : Side) (hstream : (l s).kcp.stream = 0) :
    (l s.peer).delivered <+: (l s).taken := by
  obtain ⟨t, ht⟩ := h.inv
  obtain ⟨ms, -, hmessages, -⟩ := ht.split s
  rw [hmessages hstream]
  exact List.prefix_append _ _

theorem delivered_in_order_greeted : (greeted .right).delivered = [[104, 105]] ∧
    (greeted .right).delivered <+: (greeted .left).taken :=
  ⟨by decide +kernel, delivered_in_order greeted_leads .left (by decide +kernel)⟩

/-- In stream mode as well the bytes arrive once and in order. -/
theorem delivered_bytes_in_order (h : Leads conv actions l) (s : Side) :
    (l s.peer).delivered.flatten <+: (l s).taken.flatten := by
  obtain ⟨t, ht⟩ := h.inv
  obtain ⟨ms, hflat, -, -⟩ := ht.split s
  rw [← hflat, List.flatten_append]
  exact List.prefix_append _ _

theorem delivered_bytes_in_order_greeted :
    (greeted .right).delivered.flatten <+: (greeted .left).taken.flatten :=
  delivered_bytes_in_order greeted_leads .left

/-! ## 2. Nothing is lost -/

/-- A segment that has its number is kept by the sender, or has arrived. -/
theorem segment_kept (h : Leads conv actions l) (s : Side) {i : Nat}
    (hi : i < (l s).kcp.snd_nxt.toNat) :
    (∃ seg ∈ (l s).kcp.snd_buf, seg.sn.toNat = i) ∨ i < (l s.peer).kcp.rcv_nxt.toNat ∨
      ∃ seg ∈ (l s.peer).kcp.rcv_buf, seg.sn.toNat = i := by
  obtain ⟨t, ht⟩ := h.inv
  have hsending := (ht.side s).stands.sending
  have hreceiving := (ht.side s.peer).stands.receiving
  rw [s.peer_peer] at hreceiving
  have hnext : (l s).kcp.snd_nxt.toNat = (t s).sent.length := hsending.next
  rw [hnext] at hi
  rcases (ht.transfer s).kept i hi with hpending | hlt | hearly
  · obtain ⟨x, hx, hxi⟩ := hsending.pending i hpending
    obtain ⟨seg, hseg, rfl⟩ := List.mem_map.mp hx
    exact .inl ⟨seg, hseg, hxi⟩
  · exact .inr (.inl (hreceiving.next ▸ hlt))
  · obtain ⟨x, hx, hxi⟩ := hreceiving.early i hearly
    obtain ⟨seg, hseg, rfl⟩ := List.mem_map.mp hx
    exact .inr (.inr ⟨seg, hseg, hxi⟩)

theorem segment_kept_greeted : (∃ seg ∈ (greeted .left).kcp.snd_buf, seg.sn.toNat = 0) ∨
    0 < (greeted .right).kcp.rcv_nxt.toNat ∨
      ∃ seg ∈ (greeted .right).kcp.rcv_buf, seg.sn.toNat = 0 :=
  segment_kept greeted_leads .left (by decide +kernel)

/-- When nothing is left to send or to put in order, all messages that have been taken have been
handed out or are in `rcv_queue`. -/
theorem all_arrived (h : Leads conv actions l) (s : Side) (hstream : (l s).kcp.stream = 0)
    (hqueue : (l s).kcp.snd_queue = []) (hbuf : (l s).kcp.snd_buf = [])
    (hrcv : (l s.peer).kcp.rcv_buf = []) :
    ∃ queued, (l s).taken = (l s.peer).delivered ++ queued ∧
      Messages ((l s.peer).kcp.rcv_queue.map IKCPSEG.fragment) queued := by
  obtain ⟨t, ht⟩ := h.inv
  obtain ⟨ms, -, hmessages, hrest⟩ := ht.split s
  have hsending := (ht.side s).stands.sending
  have hreceiving := (ht.side s.peer).stands.receiving
  rw [s.peer_peer] at hreceiving
  have hwaiting : (t s).waiting = [] := by
    rw [← hsending.waiting, IKCPCB.sending, hqueue]
    rfl
  have hall : (t s).sent.length ≤ (t s).expected := by
    by_contra hlt
    rcases (ht.transfer s).kept (t s).expected (Nat.lt_of_not_le hlt) with hpending | hlt | hearly
    · obtain ⟨x, hx, -⟩ := hsending.pending _ hpending
      rw [IKCPCB.sending, hbuf] at hx
      cases hx
    · exact Nat.lt_irrefl _ hlt
    · obtain ⟨x, hx, -⟩ := hreceiving.early _ hearly
      rw [IKCPCB.receiving, hrcv] at hx
      cases hx
  have hready : (l s.peer).kcp.rcv_queue.map IKCPSEG.fragment =
      (t s).sent.drop (t s).taken := by
    rw [show (l s.peer).kcp.rcv_queue.map IKCPSEG.fragment = (t s).ready from hreceiving.ready,
      Transfer.ready, List.take_of_length_le hall]
  refine ⟨ms, hmessages hstream, ?_⟩
  rw [hready]
  rwa [hwaiting, List.append_nil] at hrest

theorem all_arrived_greeted : ∃ queued,
    (greeted .left).taken = (greeted .right).delivered ++ queued ∧
      Messages ((greeted .right).kcp.rcv_queue.map IKCPSEG.fragment) queued :=
  all_arrived greeted_leads .left (by decide +kernel) (by decide +kernel) (by decide +kernel)
    (by decide +kernel)

/-! ## 3. Datagrams and windows -/

/-- No datagram of the peer is refused. -/
theorem ikcp_input_peer (h : Leads conv actions l) (hfew : ∀ s, (l s).FewSegments) (s : Side)
    {d : List UInt8} (hd : d ∈ (l s.peer).datagrams) : ((l s).kcp.ikcp_input d).2 = 0 := by
  obtain ⟨t, ht⟩ := h.inv
  have hhonest := (ht.side s.peer).honest d hd
  rw [s.peer_peer] at hhonest
  have hfew' (s : Side) : Few (t s) := few_of_fewSegments (ht.side s) (hfew s)
  exact ((ht.side s).ikcp_input (ht.transfer s) (ht.transfer s.peer) (hfew' s) (hfew' s.peer)
    hhonest).2

theorem ikcp_input_peer_greeted : ((greeted .right).kcp.ikcp_input
    ((greeted .left).datagrams.head (by decide +kernel))).2 = 0 :=
  ikcp_input_peer greeted_leads (fun s => by cases s <;> decide +kernel) .right (List.head_mem _)

/-- The size of a message that is complete. -/
theorem peeksize_of_complete {kcp : IKCPCB} {u : Transfer Fragment} {gs gs' : List Fragment}
    {m : List UInt8} (h : kcp.receiving.Stands u) (hqueue : kcp.receiving.queue = gs ++ gs')
    (hwhole : Whole gs m) (hm : m.length < 2 ^ 31) :
    kcp.ikcp_peeksize = m.length := by
  obtain ⟨hmerge, -⟩ := IKCPCB.merge_whole hwhole hqueue
  have hle : gs.length ≤ kcp.rcv_queue.length := by
    have hlength := congrArg List.length hqueue
    rw [List.length_append, IKCPCB.receiving, List.length_map] at hlength
    omega
  have hcounted : kcp.nrcv_que.toNat = kcp.rcv_queue.length := by
    rw [← List.length_map (f := IKCPSEG.fragment)]
    exact h.counted
  obtain ⟨f, fs, rfl⟩ := List.exists_cons_of_ne_nil hwhole.ne_nil
  obtain ⟨seg, rest, hcons⟩ := List.exists_cons_of_ne_nil
    (List.ne_nil_of_length_pos (Nat.lt_of_lt_of_le (Nat.succ_pos _) hle))
  have hfrg : seg.frg.toNat = fs.length := by
    have hhead : seg.fragment :: rest.map IKCPSEG.fragment = (f :: fs) ++ gs' := by
      rw [← hqueue, IKCPCB.receiving, hcons]
      rfl
    injection hhead with hhead _
    rw [← hwhole.length_eq, ← hhead]
    rfl
  rw [List.length_cons] at hle
  rw [IKCPCB.ikcp_peeksize, hcons]
  dsimp only
  rw [hcons] at hmerge
  split
  · rename_i hzero
    rw [IKCPCB.merge, if_pos hzero] at hmerge
    have hdata : seg.data = m := hmerge
    rw [hdata, toInt32_of_lt hm]
  split
  · rename_i hnque
    have hlt : kcp.nrcv_que.toNat < (seg.frg + 1).toNat := UInt32.lt_iff_toNat_lt.mp hnque
    rw [UInt32.toNat_add, UInt32.toNat_one] at hlt
    omega
  · rw [hmerge, toInt32_of_lt hm]

/-- The next message, when all of it is in `rcv_queue`. -/
theorem Inv.next_message_size {s : Side} (ht : Inv conv l t) (hstream : (l s).kcp.stream = 0)
    {f : Fragment} {rest : List Fragment} (hqueue : (l s.peer).kcp.receiving.queue = f :: rest)
    (hcomplete : f.frg.toNat < (l s.peer).kcp.receiving.queue.length) :
    ∃ m, (l s).taken[(l s.peer).delivered.length]? = some m ∧
      (l s.peer).kcp.ikcp_peeksize = m.length := by
  have hside := ht.side s.peer
  rw [s.peer_peer] at hside
  have hreceiving := hside.stands.receiving
  obtain ⟨ms, hms, -, hmessages⟩ := (ht.side s).messages
  obtain ⟨m, gs, gs', hgs, hwhole, hnext⟩ := next_message hreceiving (ht.transfer s) hms
    hside.delivered hqueue hcomplete
  have hall : (t s).sent ++ (t s).waiting = (t s).sent.take ((t s).taken + gs.length) ++
      ((t s).sent.drop ((t s).taken + gs.length) ++ (t s).waiting) := by
    rw [← List.append_assoc, List.take_append_drop]
  obtain ⟨ms', rfl, -⟩ := hnext.split (hall ▸ hms)
  have htaken := hmessages hstream
  refine ⟨m, ?_, peeksize_of_complete hreceiving hgs hwhole ?_⟩
  · rw [← htaken]
    simp
  · apply (ht.side s).short m
    rw [← htaken]
    simp

/-- Either there is room in `rcv_queue`, or `ikcp_peeksize` is the size of the next message. -/
theorem peeksize_next (h : Leads conv actions l) (s : Side) (hstream : (l s).kcp.stream = 0) :
    ((l s.peer).kcp.ikcp_peeksize = -1 ∧ (l s.peer).kcp.nrcv_que < (l s.peer).kcp.rcv_wnd) ∨
      ∃ m, (l s).taken[(l s.peer).delivered.length]? = some m ∧
        (l s.peer).kcp.ikcp_peeksize = m.length := by
  obtain ⟨t, ht⟩ := h.inv
  have hside := ht.side s.peer
  rw [s.peer_peer] at hside
  have hreceiving := hside.stands.receiving
  have hroom (hfew : (l s.peer).kcp.nrcv_que.toNat < 128) :
      (l s.peer).kcp.nrcv_que < (l s.peer).kcp.rcv_wnd :=
    UInt32.lt_iff_toNat_lt.mpr (Nat.lt_of_lt_of_le hfew hside.room)
  have hcounted : (l s.peer).kcp.nrcv_que.toNat = (l s.peer).kcp.receiving.queue.length :=
    hreceiving.counted
  cases hcons : (l s.peer).kcp.rcv_queue with
  | nil =>
    rw [IKCPCB.receiving, hcons] at hcounted
    have hzero : (l s.peer).kcp.nrcv_que.toNat = 0 := hcounted
    refine .inl ⟨?_, hroom (by omega)⟩
    rw [IKCPCB.ikcp_peeksize, hcons]
  | cons seg rest =>
    have hqueue : (l s.peer).kcp.receiving.queue =
        seg.fragment :: rest.map IKCPSEG.fragment := by
      rw [IKCPCB.receiving, hcons]
      rfl
    have hmem : seg.fragment ∈ (t s).sent ++ (t s).waiting := by
      have hready : seg.fragment ∈ (t s).ready := by
        rw [← hreceiving.ready, hqueue]
        exact List.mem_cons_self
      exact List.mem_of_mem_drop ((t s).ready_isPrefix.subset hready)
    have hfrg : seg.frg.toNat < 128 := ((ht.side s).fits _ hmem).1
    by_cases hcomplete : seg.frg.toNat < (l s.peer).kcp.receiving.queue.length
    · exact .inr (ht.next_message_size hstream hqueue hcomplete)
    · refine .inl ⟨?_, hroom (by omega)⟩
      have hlt : (l s.peer).kcp.nrcv_que < seg.frg + 1 := by
        rw [UInt32.lt_iff_toNat_lt, UInt32.toNat_add, UInt32.toNat_one]
        omega
      have hzero : seg.frg ≠ 0 := by
        intro hzero
        rw [hzero, hqueue] at hcomplete
        exact hcomplete (Nat.succ_pos _)
      rw [IKCPCB.ikcp_peeksize, hcons]
      dsimp only
      rw [if_neg hzero, if_pos hlt]

theorem peeksize_next_greeted : ((greeted .right).kcp.ikcp_peeksize = -1 ∧
    (greeted .right).kcp.nrcv_que < (greeted .right).kcp.rcv_wnd) ∨
      ∃ m, (greeted .left).taken[(greeted .right).delivered.length]? = some m ∧
        (greeted .right).kcp.ikcp_peeksize = m.length :=
  peeksize_next greeted_leads .left (by decide +kernel)

end IkcpLink

end LuaServer
