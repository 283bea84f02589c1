import LuaServer.Network.IkcpMessage
import LuaServer.Reasoning.Transition

/-!
# IkcpLink — two control blocks and the network between them

Each side sends and receives messages through its control block.  A datagram that one side has handed
to `output` may arrive at the other at any later time, any number of times or never.
-/

open Reasoning

namespace LuaServer

/-! ## 1. Two sides -/

inductive Side
  | left
  | right
deriving DecidableEq, Repr

def Side.peer : Side → Side
  | .left => .right
  | .right => .left

@[simp] theorem Side.peer_peer (s : Side) : s.peer.peer = s := by
  cases s <;> rfl

theorem Side.peer_ne (s : Side) : s.peer ≠ s := by
  cases s <;> exact Side.noConfusion

theorem Side.eq_or_eq_peer (s s' : Side) : s' = s ∨ s' = s.peer := by
  cases s <;> cases s' <;> decide

/-- A control block, the datagrams that it has handed to `output`, what `ikcp_send` has taken and what
`ikcp_recv` has handed out. -/
structure Endpoint where
  kcp : IKCPCB
  datagrams : List (List UInt8)
  taken : List (List UInt8)
  delivered : List (List UInt8)

/-- A call of a function of `ikcp.cpp`; `input i` is the arrival of the `i`-th datagram of the peer. -/
inductive IkcpCall
  | ikcp_send (buffer : List UInt8)
  | ikcp_recv (len : Int)
  | ikcp_input (i : Nat)
  | ikcp_update (current : UInt32)
  | ikcp_flush
  | ikcp_nodelay (nodelay interval resend nc : Int)
  | ikcp_interval (interval : Int)
  | ikcp_wndsize (sndwnd rcvwnd : Int)
  | ikcp_setmtu (mtu : Int)
  | setStream

namespace Endpoint

def create (conv : UInt32) : Endpoint := ⟨IKCPCB.ikcp_create conv, [], [], []⟩

def setKcp (e : Endpoint) (kcp : IKCPCB) : Endpoint := { e with kcp := kcp }

def emit (e : Endpoint) (r : IKCPCB × List (List UInt8)) : Endpoint :=
  { e with kcp := r.1, datagrams := e.datagrams ++ r.2 }

/-- `ikcp_flush` copies segments into `kcp->buffer` without asking for its size; nothing is known of
what follows when it has gone past the end. -/
def output (e : Endpoint) (r : IKCPCB × List (List UInt8)) : Option Endpoint :=
  if ∀ d ∈ r.2, d.length ≤ e.kcp.bufferSize then some (e.emit r) else none

/-- A call, with the datagrams of the peer.  Lengths, windows and `mtu` are of type `int`, and so are
the sums that `ikcp_flush` compares with `mtu`. -/
def call (e : Endpoint) (heard : List (List UInt8)) : IkcpCall → Option Endpoint
  | .ikcp_send buffer =>
    if buffer.length < 2 ^ 31 then
      some { e with
        kcp := (e.kcp.ikcp_send buffer).1
        taken := e.taken ++ e.kcp.takes buffer }
    else none
  | .ikcp_recv len =>
    some { e with
      kcp := (e.kcp.ikcp_recv len).1
      delivered := e.delivered ++ e.kcp.delivers len }
  | .ikcp_input i => heard[i]?.map fun d => e.setKcp (e.kcp.ikcp_input d).1
  | .ikcp_update current => e.output (e.kcp.ikcp_update current)
  | .ikcp_flush => e.output e.kcp.ikcp_flush
  | .ikcp_nodelay nodelay interval resend nc =>
    some (e.setKcp (e.kcp.ikcp_nodelay nodelay interval resend nc))
  | .ikcp_interval interval => some (e.setKcp (e.kcp.ikcp_interval interval))
  | .ikcp_wndsize sndwnd rcvwnd =>
    if sndwnd < 2 ^ 31 ∧ rcvwnd < 2 ^ 31 then
      some (e.setKcp (e.kcp.ikcp_wndsize sndwnd rcvwnd))
    else none
  | .ikcp_setmtu mtu =>
    if mtu < 2 ^ 30 then some (e.setKcp (e.kcp.ikcp_setmtu mtu).1) else none
  | .setStream => some (e.setKcp { e.kcp with stream := 1 })

theorem output_eq_some_iff {e e' : Endpoint} {r : IKCPCB × List (List UInt8)} :
    e.output r = some e' ↔ (∀ d ∈ r.2, d.length ≤ e.kcp.bufferSize) ∧ e.emit r = e' :=
  Option.ite_none_right_eq_some.trans (and_congr_right fun _ => Option.some_inj)

/-- Fewer than `2 ^ 31` segments have been made. -/
def FewSegments (e : Endpoint) : Prop := e.kcp.snd_nxt.toNat + e.kcp.snd_queue.length < 2 ^ 31

instance (e : Endpoint) : Decidable e.FewSegments := inferInstanceAs (Decidable (_ < _))

end Endpoint

abbrev IkcpLink : Type := Side → Endpoint

namespace IkcpLink

def create (conv : UInt32) : IkcpLink := fun _ => Endpoint.create conv

def step (l : IkcpLink) (a : Side × IkcpCall) : Option IkcpLink :=
  ((l a.1).call (l a.1.peer).datagrams a.2).map (Function.update l a.1)

/-- Neither side has made `2 ^ 31` segments. -/
def FewSegments (l : IkcpLink) (_ : Side × IkcpCall) : Prop :=
  (l .left).FewSegments ∧ (l .right).FewSegments

instance (l : IkcpLink) (a : Side × IkcpCall) : Decidable (FewSegments l a) :=
  inferInstanceAs (Decidable (_ ∧ _))

end IkcpLink

/-! ## 2. What holds at one side -/

/-- The datagram is of `ikcp_flush`, and all that it tells is true. -/
def IsHonest (conv : UInt32) (out inn : Transfer Fragment) (d : List UInt8) : Prop :=
  d ≠ [] ∧ IsDatagram (IKCPSEG.Honest conv out inn) d

/-- What was true once stays true. -/
theorem IsHonest.later {conv : UInt32} {out inn out' inn' : Transfer Fragment} {d : List UInt8}
    (h : IsHonest conv out inn d) (hsent : out.sent <+: out'.sent)
    (hexpected : inn.expected ≤ inn'.expected) (hhas : ∀ i, inn.Has i → inn'.Has i) :
    IsHonest conv out' inn' d :=
  ⟨h.1, h.2.mono fun _ hseg => hseg.mono hsent hexpected hhas⟩

section
variable {e e' : Endpoint} {conv : UInt32} {out inn out' inn' : Transfer Fragment}

namespace Endpoint

/-- `out` is the transfer to the peer and `inn` the one from it. -/
structure Inv (e : Endpoint) (conv : UInt32) (out inn : Transfer Fragment) : Prop where
  stands : e.kcp.Stands out inn
  conv_eq : e.kcp.conv = conv
  mss_pos : 0 < e.kcp.mss.toNat
  mss_lt : e.kcp.mss.toNat < 2 ^ 31
  room : 128 ≤ e.kcp.rcv_wnd.toNat
  short : ∀ m ∈ e.taken, m.length < 2 ^ 31
  fits : FitsAll out
  honest : ∀ d ∈ e.datagrams, IsHonest conv out inn d
  messages : ∃ ms, Messages (out.sent ++ out.waiting) ms ∧
    ms.flatten = e.taken.flatten ∧ (e.kcp.stream = 0 → ms = e.taken)
  delivered : Messages (inn.sent.take inn.taken) e.delivered

theorem create_inv (conv : UInt32) :
    (create conv).Inv conv Transfer.empty Transfer.empty where
  stands := by
    constructor
    · exact ⟨rfl, rfl, fun _ h => (nomatch h), fun _ h => nomatch h⟩
    · exact ⟨rfl, rfl, rfl, fun _ h => (nomatch h), fun _ h => (nomatch h), fun _ h => nomatch h⟩
  conv_eq := rfl
  mss_pos := show 0 < (1400 - 24 : UInt32).toNat by decide
  mss_lt := show (1400 - 24 : UInt32).toNat < 2 ^ 31 by decide
  room := Nat.le_refl 128
  short := fun _ h => nomatch h
  fits := fun _ h => nomatch h
  honest := fun _ h => nomatch h
  messages := ⟨[], .nil, rfl, fun _ => rfl⟩
  delivered := .nil

/-- The calls of the peer leave alone what holds at this side: the peer is the sender of `inn` and the
receiver of `out`. -/
theorem Inv.peer {k : Nat} (h : e.Inv conv out inn) (hinn : inn.Inv) (hsends : inn.Sends inn')
    (hreceives : (out.handOut k).Receives out') : e.Inv conv out' inn' := by
  obtain ⟨hsent, hwaiting, hpending, -⟩ := hreceives.frame
  obtain ⟨hexpected, hearly, htaken, hprefix⟩ := hsends.frame
  have hhas (i : ℕ) : inn'.Has i ↔ inn.Has i := hsends.has_iff
  have hle := hinn.taken_le.trans hinn.expected_le
  have hall : out'.sent ++ out'.waiting = out.sent ++ out.waiting := by
    rw [hsent, hwaiting]
    rfl
  refine ⟨⟨?_, ?_⟩, h.conv_eq, h.mss_pos, h.mss_lt, h.room, h.short, ?_, ?_, ?_, ?_⟩
  · exact ⟨hsent ▸ h.stands.sending.next, hwaiting ▸ h.stands.sending.waiting,
      hsent ▸ h.stands.sending.buf, hpending ▸ h.stands.sending.pending⟩
  · have hr := h.stands.receiving
    refine ⟨hexpected ▸ hr.next, ?_, hr.counted, ?_, hearly ▸ hr.early, ?_⟩
    · obtain ⟨rest, hrest⟩ := hprefix
      rw [hr.ready, Transfer.ready, Transfer.ready, hexpected, htaken, ← hrest,
        List.take_append_of_le_length hinn.expected_le]
    · intro s hs
      exact ⟨(hhas _).mpr (hr.buf s hs).1, getElem?_of_prefix hprefix (hr.buf s hs).2⟩
    · exact fun sn hsn => (hhas _).mpr (hr.owed sn hsn)
  · rw [FitsAll, hall]
    exact h.fits
  · refine fun d hd => (h.honest d hd).later ?_ hexpected.ge fun i => (hhas i).mpr
    rw [hsent]
    exact List.prefix_refl _
  · rw [hall]
    exact h.messages
  · obtain ⟨rest, hrest⟩ := hprefix
    rw [htaken, ← hrest, List.take_append_of_le_length hle]
    exact h.delivered

/-! ## 3. Calls -/

/-- What a call leads to: a few steps of both transfers, and the same picture. -/
def Leads (conv : UInt32) (out inn : Transfer Fragment) (e' : Endpoint) : Prop :=
  ∃ k out' inn', out.Sends out' ∧ (inn.handOut k).Inv ∧ (inn.handOut k).Receives inn' ∧
    e'.Inv conv out' inn'

/-- What the options leave alone. -/
theorem Inv.options {kcp : IKCPCB} (h : e.Inv conv out inn) (hinn : inn.Inv)
    (hsending : kcp.sending = e.kcp.sending) (hreceiving : kcp.receiving = e.kcp.receiving)
    (hpos : 0 < kcp.mss.toNat) (hlt : kcp.mss.toNat < 2 ^ 31) (hroom : 128 ≤ kcp.rcv_wnd.toNat)
    (hstream : kcp.stream = 0 → e.kcp.stream = 0) : Leads conv out inn (e.setKcp kcp) := by
  obtain ⟨ms, hms, hflat, hmessages⟩ := h.messages
  refine ⟨0, out, inn, .refl, hinn, .refl, h.stands.congr hsending hreceiving, ?_, hpos, hlt,
    hroom, h.short, h.fits, h.honest, ⟨ms, hms, hflat, fun hzero => hmessages (hstream hzero)⟩, h.delivered⟩
  rw [← h.conv_eq]
  exact congrArg Sending.conv hsending

/-- A call that leaves the options alone, and sends no message. -/
theorem Inv.kept (h : e.Inv conv out inn) (htaken : e'.taken = e.taken)
    (hsettings : e'.kcp.settings = e.kcp.settings) (hstands : e'.kcp.Stands out' inn')
    (hall : out'.sent ++ out'.waiting = out.sent ++ out.waiting)
    (hhonest : ∀ d ∈ e'.datagrams, IsHonest conv out' inn' d)
    (hdelivered : Messages (inn'.sent.take inn'.taken) e'.delivered) : e'.Inv conv out' inn' := by
  have hconv : e'.kcp.conv = e.kcp.conv := congrArg Settings.conv hsettings
  have hmss : e'.kcp.mss = e.kcp.mss := congrArg Settings.mss hsettings
  have hwnd : e'.kcp.rcv_wnd = e.kcp.rcv_wnd := congrArg Settings.rcv_wnd hsettings
  have hstream : e'.kcp.stream = e.kcp.stream := congrArg Settings.stream hsettings
  refine ⟨hstands, hconv.trans h.conv_eq, hmss ▸ h.mss_pos, hmss ▸ h.mss_lt, hwnd ▸ h.room,
    htaken ▸ h.short, ?_, hhonest, ?_, hdelivered⟩
  · rw [FitsAll, hall]
    exact h.fits
  · rw [hall, htaken, hstream]
    exact h.messages

theorem Inv.ikcp_send (h : e.Inv conv out inn) (hinn : inn.Inv) {buffer : List UInt8}
    (hlen : buffer.length < 2 ^ 31) :
    Leads conv out inn { e with
      kcp := (e.kcp.ikcp_send buffer).1
      taken := e.taken ++ e.kcp.takes buffer } := by
  have hqueued := IKCPCB.ikcp_send_queued h.mss_pos buffer
  obtain ⟨ms, hms, hflat, hmessages⟩ := h.messages
  have hwaiting : e.kcp.snd_queue.map IKCPSEG.fragment = out.waiting := h.stands.sending.waiting
  obtain ⟨ms', hms', hflat', hmessages'⟩ := hqueued.messages out.sent ms (hwaiting ▸ hms)
  have hconv : (e.kcp.ikcp_send buffer).1.conv = e.kcp.conv :=
    congrArg Settings.conv hqueued.settings
  have hstream : (e.kcp.ikcp_send buffer).1.stream = e.kcp.stream :=
    congrArg Settings.stream hqueued.settings
  refine ⟨0, _, inn, .single (.offer out
    ((e.kcp.ikcp_send buffer).1.snd_queue.map IKCPSEG.fragment)), hinn, .refl, ?_⟩
  have hwnd : (e.kcp.ikcp_send buffer).1.rcv_wnd = e.kcp.rcv_wnd :=
    congrArg Settings.rcv_wnd hqueued.settings
  refine ⟨⟨?_, ?_⟩, hconv.trans h.conv_eq, ?_, ?_, ?_, ?_, ?_, ?_, ?_, h.delivered⟩
  · dsimp only
    rw [hqueued.sending]
    exact ⟨h.stands.sending.next, rfl, h.stands.sending.buf, h.stands.sending.pending⟩
  · dsimp only
    rw [hqueued.receiving]
    exact h.stands.receiving
  · dsimp only
    rw [hqueued.mss_eq]
    exact h.mss_pos
  · dsimp only
    rw [hqueued.mss_eq]
    exact h.mss_lt
  · dsimp only
    rw [hwnd]
    exact h.room
  · intro m hm
    rcases List.mem_append.mp hm with hm | hm
    · exact h.short m hm
    · exact Nat.lt_of_le_of_lt (IKCPCB.length_le_of_mem_takes hm) hlen
  · intro f hf
    rcases List.mem_append.mp hf with hf | hf
    · exact h.fits f (List.mem_append_left _ hf)
    · obtain ⟨seg, hseg, rfl⟩ := List.mem_map.mp hf
      rcases hqueued.fits seg hseg with hold | ⟨hfrg, hlen⟩
      · exact h.fits _ (List.mem_append_right _ (hwaiting ▸ List.mem_map_of_mem hold))
      · exact ⟨hfrg, Nat.lt_of_le_of_lt hlen h.mss_lt⟩
  · exact fun d hd => (h.honest d hd).later (List.prefix_refl _) (Nat.le_refl _) fun _ hi => hi
  · refine ⟨ms', hms', ?_, ?_⟩
    · rw [hflat', hflat, List.flatten_append]
    · intro hzero
      have hzero' : e.kcp.stream = 0 := hstream ▸ hzero
      rw [hmessages' hzero', hmessages hzero']

theorem Inv.ikcp_recv {ms : List (List UInt8)} (h : e.Inv conv out inn) (hinn : inn.Inv)
    (hfew : Few inn) (hfits : FitsAll inn) (hms : Messages (inn.sent ++ inn.waiting) ms)
    (len : Int) :
    Leads conv out inn { e with
      kcp := (e.kcp.ikcp_recv len).1
      delivered := e.delivered ++ e.kcp.delivers len } := by
  obtain ⟨k, inn', hinv, hsteps, hstands, hmessages⟩ := IKCPCB.ikcp_recv_receives
    h.stands.receiving hinn hfew hfits hms h.delivered len
  have honly := e.kcp.ikcp_recv_only len
  have hsending := honly.sending
  obtain ⟨hsent, -, -, htaken⟩ := hsteps.frame
  refine ⟨k, out, inn', .refl, hinv, hsteps, ?_⟩
  refine h.kept rfl honly.settings ⟨hsending ▸ h.stands.sending, hstands⟩ rfl ?_ ?_
  · exact fun d hd => (h.honest d hd).later (List.prefix_refl _) hsteps.expected_le
      fun i hi => hsteps.has hi
  · rw [hsent, htaken]
    exact hmessages

/-- The datagram of the peer is accepted. -/
theorem Inv.ikcp_input {d : List UInt8} (h : e.Inv conv out inn) (hout : out.Inv) (hinn : inn.Inv)
    (hfew : Few out) (hfew' : Few inn) (hd : IsHonest conv inn out d) :
    Leads conv out inn (e.setKcp (e.kcp.ikcp_input d).1) ∧ (e.kcp.ikcp_input d).2 = 0 := by
  have hhonest : IsDatagram (IKCPSEG.Honest e.kcp.conv inn out) d := h.conv_eq ▸ hd.2
  obtain ⟨out', inn', ⟨hforget, hsteps⟩, hstands, hresult⟩ :=
    IKCPCB.ikcp_input_stands h.stands hout hinn hfew hfew' hd.1 hhonest
  obtain ⟨hsent, -, -, htaken⟩ := hsteps.frame
  obtain ⟨hsent', hwaiting'⟩ := hforget.sent
  refine ⟨⟨0, out', inn', hforget.sends, hinn, hsteps, ?_⟩, hresult⟩
  refine h.kept rfl (e.kcp.ikcp_input_only d).settings hstands ?_ ?_ ?_
  · rw [hsent', hwaiting']
  · refine fun b hb => (h.honest b hb).later ?_ hsteps.expected_le fun i hi => hsteps.has hi
    rw [hsent']
  · rw [hsent, htaken]
    exact h.delivered

/-- `ikcp_flush` and `ikcp_update`. -/
theorem Inv.output {r : IKCPCB × List (List UInt8)} (h : e.Inv conv out inn) (hinn : inn.Inv)
    (hnumbers : Numbers out out') (hsettings : r.1.settings = e.kcp.settings)
    (hstands : r.1.Stands out' inn)
    (hhonest : ∀ d ∈ r.2, IsHonest e.kcp.conv out' inn d) : Leads conv out inn (e.emit r) := by
  refine ⟨0, out', inn, hnumbers.1, hinn, .refl, ?_⟩
  refine h.kept rfl hsettings hstands hnumbers.2 ?_ h.delivered
  intro d hd
  rcases List.mem_append.mp hd with hd | hd
  · exact (h.honest d hd).later hnumbers.1.frame.2.2.2 (Nat.le_refl _) fun _ hi => hi
  · exact h.conv_eq ▸ hhonest d hd

end Endpoint

namespace IKCPCB

/-- Nothing but options, among them not the size of the segments; the window to receive has room for
a message. -/
structure SameFlow (kcp kcp' : IKCPCB) : Prop where
  sending : kcp'.sending = kcp.sending
  receiving : kcp'.receiving = kcp.receiving
  mss : kcp'.mss = kcp.mss
  stream : kcp'.stream = kcp.stream
  room : 128 ≤ kcp.rcv_wnd.toNat → 128 ≤ kcp'.rcv_wnd.toNat

theorem SameFlow.refl (kcp : IKCPCB) : kcp.SameFlow kcp := ⟨rfl, rfl, rfl, rfl, id⟩

theorem SameFlow.trans {kcp kcp₁ kcp₂ : IKCPCB} (h : kcp.SameFlow kcp₁) (h' : kcp₁.SameFlow kcp₂) :
    kcp.SameFlow kcp₂ where
  sending := h'.sending.trans h.sending
  receiving := h'.receiving.trans h.receiving
  mss := h'.mss.trans h.mss
  stream := h'.stream.trans h.stream
  room := fun hroom => h'.room (h.room hroom)

theorem ikcp_nodelay_sameFlow (kcp : IKCPCB) (nodelay interval resend nc : Int) :
    kcp.SameFlow (kcp.ikcp_nodelay nodelay interval resend nc) := by
  unfold ikcp_nodelay
  extract_lets k₁ k₂ k₃
  have h₁ : kcp.SameFlow k₁ := by
    unfold k₁
    split
    · exact ⟨rfl, rfl, rfl, rfl, id⟩
    · exact .refl kcp
  have h₂ : k₁.SameFlow k₂ := by
    unfold k₂
    split
    · exact ⟨rfl, rfl, rfl, rfl, id⟩
    · exact .refl k₁
  have h₃ : k₂.SameFlow k₃ := by
    unfold k₃
    split
    · exact ⟨rfl, rfl, rfl, rfl, id⟩
    · exact .refl k₂
  refine (h₁.trans h₂).trans (h₃.trans ?_)
  split
  · exact ⟨rfl, rfl, rfl, rfl, id⟩
  · exact .refl k₃

theorem ikcp_wndsize_sameFlow (kcp : IKCPCB) (sndwnd rcvwnd : Int) :
    kcp.SameFlow (kcp.ikcp_wndsize sndwnd rcvwnd) := by
  unfold ikcp_wndsize
  extract_lets k₁
  have h₁ : kcp.SameFlow k₁ := by
    unfold k₁
    split
    · exact ⟨rfl, rfl, rfl, rfl, id⟩
    · exact .refl kcp
  refine h₁.trans ?_
  split
  · refine ⟨rfl, rfl, rfl, rfl, fun _ => ?_⟩
    show 128 ≤ (_imax_ _ IKCP_WND_RCV).toNat
    rw [_imax_]
    split
    · rename_i hle
      exact UInt32.le_iff_toNat_le.mp hle
    · exact Nat.le_refl 128
  · exact .refl k₁

/-- `mss` stays between 26 and `2 ^ 31`. -/
theorem ikcp_setmtu_mss {kcp : IKCPCB} {mtu : Int} (hmtu : mtu < 2 ^ 30)
    (hpos : 0 < kcp.mss.toNat) (hlt : kcp.mss.toNat < 2 ^ 31) :
    0 < (kcp.ikcp_setmtu mtu).1.mss.toNat ∧ (kcp.ikcp_setmtu mtu).1.mss.toNat < 2 ^ 31 := by
  rw [ikcp_setmtu]
  split
  · exact ⟨hpos, hlt⟩
  · rename_i hlow
    have hnat : (UInt32.ofInt mtu).toNat = mtu.toNat := by
      simp [UInt32.ofInt]
      omega
    show 0 < (UInt32.ofInt mtu - 24).toNat ∧ (UInt32.ofInt mtu - 24).toNat < 2 ^ 31
    rw [UInt32.toNat_sub, hnat, show (24 : UInt32).toNat = 24 from rfl]
    omega

end IKCPCB

namespace Endpoint

/-- A call at one side. -/
theorem Inv.call {ms : List (List UInt8)} {heard : List (List UInt8)} {c : IkcpCall}
    (h : e.Inv conv out inn) (hout : out.Inv) (hinn : inn.Inv) (hfew : Few out)
    (hfew' : Few inn) (hfits : FitsAll inn) (hms : Messages (inn.sent ++ inn.waiting) ms)
    (hheard : ∀ d ∈ heard, IsHonest conv inn out d) (hcall : e.call heard c = some e') :
    Leads conv out inn e' := by
  cases c with
  | ikcp_send buffer =>
    rw [Endpoint.call] at hcall
    split at hcall
    · rename_i hlen
      cases hcall
      exact h.ikcp_send hinn hlen
    · cases hcall
  | ikcp_recv len =>
    cases hcall
    exact h.ikcp_recv hinn hfew' hfits hms len
  | ikcp_input i =>
    obtain ⟨d, hd, rfl⟩ := Option.map_eq_some_iff.mp hcall
    exact (h.ikcp_input hout hinn hfew hfew' (hheard d (List.mem_of_getElem? hd))).1
  | ikcp_update current =>
    obtain ⟨-, rfl⟩ := output_eq_some_iff.mp hcall
    obtain ⟨out', hnumbers, hstands, hhonest⟩ :=
      IKCPCB.ikcp_update_stands h.stands hfew h.fits current
    exact h.output (r := e.kcp.ikcp_update current) hinn hnumbers
      (e.kcp.ikcp_update_only current).settings hstands hhonest
  | ikcp_flush =>
    obtain ⟨-, rfl⟩ := output_eq_some_iff.mp hcall
    obtain ⟨out', hnumbers, hstands, hhonest⟩ := IKCPCB.ikcp_flush_stands e.kcp h.stands hfew h.fits
    exact h.output (r := e.kcp.ikcp_flush) hinn hnumbers e.kcp.ikcp_flush_only.settings hstands
      hhonest
  | ikcp_nodelay nodelay interval resend nc =>
    cases hcall
    have hsame := e.kcp.ikcp_nodelay_sameFlow nodelay interval resend nc
    exact h.options hinn hsame.sending hsame.receiving (hsame.mss ▸ h.mss_pos)
      (hsame.mss ▸ h.mss_lt) (hsame.room h.room) fun hzero => hsame.stream ▸ hzero
  | ikcp_interval interval =>
    cases hcall
    exact h.options hinn rfl rfl h.mss_pos h.mss_lt h.room id
  | ikcp_wndsize sndwnd rcvwnd =>
    rw [Endpoint.call] at hcall
    split at hcall
    · cases hcall
      have hsame := e.kcp.ikcp_wndsize_sameFlow sndwnd rcvwnd
      exact h.options hinn hsame.sending hsame.receiving (hsame.mss ▸ h.mss_pos)
        (hsame.mss ▸ h.mss_lt) (hsame.room h.room) fun hzero => hsame.stream ▸ hzero
    · cases hcall
  | ikcp_setmtu mtu =>
    rw [Endpoint.call] at hcall
    split at hcall
    · rename_i hmtu
      cases hcall
      obtain ⟨hpos, hlt⟩ := IKCPCB.ikcp_setmtu_mss hmtu h.mss_pos h.mss_lt
      have hflow : (e.kcp.ikcp_setmtu mtu).1.sending = e.kcp.sending ∧
          (e.kcp.ikcp_setmtu mtu).1.receiving = e.kcp.receiving ∧
          (e.kcp.ikcp_setmtu mtu).1.rcv_wnd = e.kcp.rcv_wnd ∧
          (e.kcp.ikcp_setmtu mtu).1.stream = e.kcp.stream := by
        rw [IKCPCB.ikcp_setmtu]
        split <;> exact ⟨rfl, rfl, rfl, rfl⟩
      exact h.options hinn hflow.1 hflow.2.1 hpos hlt (hflow.2.2.1 ▸ h.room)
        fun hzero => hflow.2.2.2 ▸ hzero
    · cases hcall
  | setStream =>
    cases hcall
    have hone (hzero : (1 : Int) = 0) : e.kcp.stream = 0 := absurd hzero (by decide)
    exact h.options hinn rfl rfl h.mss_pos h.mss_lt h.room hone

end Endpoint

/-! ## 4. Runs -/

namespace IkcpLink

variable {l l' : IkcpLink} {s : Side}

/-- There are two transfers, `t s` from each side `s`, in which the two sides stand. -/
structure Inv (conv : UInt32) (l : IkcpLink) (t : Side → Transfer Fragment) : Prop where
  transfer : ∀ s, (t s).Inv
  side : ∀ s, (l s).Inv conv (t s) (t s.peer)

theorem create_inv (conv : UInt32) : Inv conv (create conv) fun _ => Transfer.empty where
  transfer := fun _ => Transfer.empty_inv
  side := fun _ => Endpoint.create_inv conv

theorem few_of_fewSegments (h : e.Inv conv out inn) (hfew : e.FewSegments) : Few out := by
  have hnext := h.stands.sending.next
  have hlen : (e.kcp.snd_queue.map IKCPSEG.fragment).length = out.waiting.length :=
    congrArg List.length h.stands.sending.waiting
  rw [List.length_map] at hlen
  rw [Few, ← hlen, ← hnext]
  exact hfew

theorem step_inv {t : Side → Transfer Fragment} {a : Side × IkcpCall} (h : Inv conv l t)
    (hfew : FewSegments l a) (hstep : step l a = some l') : ∃ t', Inv conv l' t' := by
  obtain ⟨s, c⟩ := a
  obtain ⟨e', hcall, rfl⟩ := Option.map_eq_some_iff.mp hstep
  have hfew' (s : Side) : Few (t s) := by
    refine few_of_fewSegments (h.side s) ?_
    cases s
    · exact hfew.1
    · exact hfew.2
  have hpeer := h.side s.peer
  rw [s.peer_peer] at hpeer
  obtain ⟨ms, hms, -, -⟩ := hpeer.messages
  obtain ⟨k, out', inn', hsends, htake, hreceives, hinv⟩ := (h.side s).call (h.transfer s)
    (h.transfer s.peer) (hfew' s) (hfew' s.peer) hpeer.fits hms hpeer.honest hcall
  have hsame (t' : Side → Transfer Fragment) (hs : t' s = out') (hp : t' s.peer = inn') :
      Inv conv (Function.update l s e') t' := by
    constructor
    · intro s'
      rcases s.eq_or_eq_peer s' with rfl | rfl
      · exact hs ▸ hsends.inv (h.transfer _)
      · exact hp ▸ hreceives.inv htake
    · intro s'
      rcases s.eq_or_eq_peer s' with rfl | rfl
      · rw [Function.update_self, hs, hp]
        exact hinv
      · rw [Function.update_of_ne s.peer_ne, Side.peer_peer, hs, hp]
        exact hpeer.peer (h.transfer s) hsends hreceives
  exact ⟨fun s' => if s' = s then out' else inn', hsame _ (if_pos rfl) (if_neg s.peer_ne)⟩

end IkcpLink

end

end LuaServer
