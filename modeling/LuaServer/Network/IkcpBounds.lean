import LuaServer.Network.IkcpSendWindow

/-!
# IkcpBounds — a control block between an application and a network that brings any bytes

The windows and `mtu` are set before anything is sent or received; otherwise the calls come in any
order, and what arrives need not come from a control block.
-/

open Reasoning

namespace LuaServer

/-! ## 1. Options -/

namespace IKCPCB

variable {kcp kcp' : IKCPCB}

/-- No number of a segment has been used, and no segment waits. -/
def Fresh (kcp : IKCPCB) : Prop :=
  kcp.snd_queue = [] ∧ kcp.snd_buf = [] ∧ kcp.rcv_queue = [] ∧ kcp.rcv_buf = [] ∧
    kcp.snd_nxt = kcp.snd_una

instance (kcp : IKCPCB) : Decidable kcp.Fresh := inferInstanceAs (Decidable (_ ∧ _))

/-- The fields of both flows and the options that bound them are the same. -/
structure SameQueues (kcp kcp' : IKCPCB) : Prop where
  rcv : kcp.SameRcv kcp'
  snd : kcp.SameSnd kcp'

theorem SameQueues.refl (kcp : IKCPCB) : kcp.SameQueues kcp :=
  ⟨⟨rfl, rfl, rfl, rfl, rfl, rfl⟩, ⟨rfl, rfl, rfl, rfl, rfl, rfl, rfl⟩⟩

theorem SameQueues.trans {kcp₁ kcp₂ : IKCPCB} (h : kcp.SameQueues kcp₁)
    (h' : kcp₁.SameQueues kcp₂) : kcp.SameQueues kcp₂ := by
  obtain ⟨⟨r₁, r₂, r₃, r₄, r₅, r₆⟩, ⟨s₁, s₂, s₃, s₄, s₅, s₆, s₇⟩⟩ := h
  obtain ⟨⟨r₁', r₂', r₃', r₄', r₅', r₆'⟩, ⟨s₁', s₂', s₃', s₄', s₅', s₆', s₇'⟩⟩ := h'
  exact ⟨⟨r₁'.trans r₁, r₂'.trans r₂, r₃'.trans r₃, r₄'.trans r₄, r₅'.trans r₅, r₆'.trans r₆⟩,
    ⟨s₁'.trans s₁, s₂'.trans s₂, s₃'.trans s₃, s₄'.trans s₄, s₅'.trans s₅, s₆'.trans s₆,
      s₇'.trans s₇⟩⟩

theorem ikcp_interval_sameQueues (kcp : IKCPCB) (interval : Int) :
    kcp.SameQueues (kcp.ikcp_interval interval) :=
  ⟨⟨rfl, rfl, rfl, rfl, rfl, rfl⟩, ⟨rfl, rfl, rfl, rfl, rfl, rfl, rfl⟩⟩

theorem ikcp_nodelay_sameQueues (kcp : IKCPCB) (nodelay interval resend nc : Int) :
    kcp.SameQueues (kcp.ikcp_nodelay nodelay interval resend nc) := by
  unfold ikcp_nodelay
  extract_lets k₁ k₂ k₃
  have h₁ : kcp.SameQueues k₁ := by
    unfold k₁
    split
    · exact ⟨⟨rfl, rfl, rfl, rfl, rfl, rfl⟩, ⟨rfl, rfl, rfl, rfl, rfl, rfl, rfl⟩⟩
    · exact .refl kcp
  have h₂ : k₁.SameQueues k₂ := by
    unfold k₂
    split
    · exact ikcp_interval_sameQueues k₁ interval
    · exact .refl k₁
  have h₃ : k₂.SameQueues k₃ := by
    unfold k₃
    split
    · exact ⟨⟨rfl, rfl, rfl, rfl, rfl, rfl⟩, ⟨rfl, rfl, rfl, rfl, rfl, rfl, rfl⟩⟩
    · exact .refl k₂
  refine (h₁.trans h₂).trans (h₃.trans ?_)
  split
  · exact ⟨⟨rfl, rfl, rfl, rfl, rfl, rfl⟩, ⟨rfl, rfl, rfl, rfl, rfl, rfl, rfl⟩⟩
  · exact .refl k₃

/-- A control block that is not in use has whatever windows it is given. -/
theorem Fresh.rcvSound (hfresh : kcp.Fresh) (h : kcp.RcvSound) (hwnd : kcp'.rcv_wnd.toNat < 2 ^ 31)
    (hque : kcp'.nrcv_que = kcp.nrcv_que) (hbuf : kcp'.nrcv_buf = kcp.nrcv_buf)
    (hqueue : kcp'.rcv_queue = kcp.rcv_queue) (hrcv : kcp'.rcv_buf = kcp.rcv_buf) :
    kcp'.RcvSound := by
  obtain ⟨-, -, hempty, hempty', -⟩ := hfresh
  refine ⟨⟨hwnd, ?_, ?_, ?_, ?_⟩, ?_⟩
  · rw [hque, hqueue]
    exact h.nrcv_que
  · rw [hqueue, hempty]
    exact Nat.zero_le _
  · rw [hbuf, hrcv]
    exact h.nrcv_buf
  · rw [hrcv, hempty']
    exact .nil
  · intro seg rest heq
    rw [hrcv, hempty'] at heq
    cases heq

theorem Fresh.sndSound (hfresh : kcp.Fresh) (h : kcp.SndSound)
    (hmtu : kcp'.mtu.toNat = kcp'.mss.toNat + 24) (hmss : 0 < kcp'.mss.toNat)
    (hlt : kcp'.mtu.toNat < 2 ^ 30) (hwnd : kcp'.snd_wnd.toNat < 2 ^ 31)
    (hfields : kcp'.nsnd_que = kcp.nsnd_que ∧ kcp'.nsnd_buf = kcp.nsnd_buf ∧
      kcp'.snd_queue = kcp.snd_queue ∧ kcp'.snd_buf = kcp.snd_buf ∧ kcp'.snd_nxt = kcp.snd_nxt ∧
      kcp'.snd_una = kcp.snd_una) : kcp'.SndSound := by
  obtain ⟨hempty, hempty', -, -, hnext⟩ := hfresh
  obtain ⟨hque, hbuf, hqueue, hsnd, hnxt, huna⟩ := hfields
  refine ⟨hmtu, hmss, hlt, hwnd, ?_, ?_, ?_, ?_, ?_, ?_⟩
  · rw [hque, hqueue]
    exact h.nsnd_que
  · rw [hbuf, hsnd]
    exact h.nsnd_buf
  · rw [hsnd, hempty']
    exact .nil
  · rw [inflight, hnxt, huna, hnext, UInt32.sub_self]
    exact Nat.zero_le _
  · rw [hqueue, hempty]
    exact fun _ hseg => absurd hseg List.not_mem_nil
  · rw [hsnd, hempty']
    exact fun _ hseg => absurd hseg List.not_mem_nil

theorem ofInt_toNat_lt {x : Int} (hpos : 0 < x) (hlt : x < 2 ^ 31) :
    (UInt32.ofInt x).toNat < 2 ^ 31 := by
  have hnat : (UInt32.ofInt x).toNat = x.toNat := by
    simp [UInt32.ofInt]
    omega
  omega

theorem ikcp_wndsize_sound {sndwnd rcvwnd : Int} (hfresh : kcp.Fresh) (hr : kcp.RcvSound)
    (hs : kcp.SndSound) (hsnd : sndwnd < 2 ^ 31) (hrcv : rcvwnd < 2 ^ 31) :
    (kcp.ikcp_wndsize sndwnd rcvwnd).RcvSound ∧ (kcp.ikcp_wndsize sndwnd rcvwnd).SndSound := by
  unfold ikcp_wndsize
  extract_lets k₁
  have h₁ : k₁.Fresh ∧ k₁.RcvSound ∧ k₁.SndSound := by
    unfold k₁
    split
    · rename_i hpos
      refine ⟨hfresh, hr.same ⟨rfl, rfl, rfl, rfl, rfl, rfl⟩, ?_⟩
      exact hfresh.sndSound hs hs.mtu hs.mss_pos hs.mtu_lt (ofInt_toNat_lt hpos hsnd)
        ⟨rfl, rfl, rfl, rfl, rfl, rfl⟩
    · exact ⟨hfresh, hr, hs⟩
  obtain ⟨hfresh₁, hr₁, hs₁⟩ := h₁
  split
  · rename_i hpos
    constructor
    · refine hfresh₁.rcvSound hr₁ ?_ rfl rfl rfl rfl
      show (_imax_ (UInt32.ofInt rcvwnd) IKCP_WND_RCV).toNat < 2 ^ 31
      rw [_imax_]
      split
      · exact ofInt_toNat_lt hpos hrcv
      · decide
    · exact hfresh₁.sndSound hs₁ hs₁.mtu hs₁.mss_pos hs₁.mtu_lt hs₁.wnd_lt
        ⟨rfl, rfl, rfl, rfl, rfl, rfl⟩
  · exact ⟨hr₁, hs₁⟩

theorem ikcp_setmtu_sound {mtu : Int} (hfresh : kcp.Fresh) (hr : kcp.RcvSound) (hs : kcp.SndSound)
    (hmtu : mtu < 2 ^ 30) :
    (kcp.ikcp_setmtu mtu).1.RcvSound ∧ (kcp.ikcp_setmtu mtu).1.SndSound := by
  rw [ikcp_setmtu]
  split
  · exact ⟨hr, hs⟩
  · rename_i hlow
    have hnat : (UInt32.ofInt mtu).toNat = mtu.toNat := by
      simp [UInt32.ofInt]
      omega
    have hmss : (UInt32.ofInt mtu - 24).toNat = mtu.toNat - 24 := by
      rw [UInt32.toNat_sub, hnat, show (24 : UInt32).toNat = 24 from rfl]
      omega
    refine ⟨hr.same ⟨rfl, rfl, rfl, rfl, rfl, rfl⟩, ?_⟩
    refine hfresh.sndSound hs ?_ ?_ ?_ hs.wnd_lt ⟨rfl, rfl, rfl, rfl, rfl, rfl⟩
    · show (UInt32.ofInt mtu).toNat = (UInt32.ofInt mtu - 24).toNat + 24
      omega
    · show 0 < (UInt32.ofInt mtu - 24).toNat
      omega
    · show (UInt32.ofInt mtu).toNat < 2 ^ 30
      omega

end IKCPCB

/-! ## 2. Runs -/

namespace Endpoint

variable {conv : UInt32} {actions : List (IkcpCall × List (List UInt8))} {e e' : Endpoint}

/-- A call, where the network brings any datagrams. -/
def step (e : Endpoint) (a : IkcpCall × List (List UInt8)) : Option Endpoint := e.call a.2 a.1

/-- The windows and `mtu` are set before anything is sent or received. -/
def SetsBeforeUse (e : Endpoint) : IkcpCall × List (List UInt8) → Prop
  | (.ikcp_wndsize _ _, _) => e.kcp.Fresh
  | (.ikcp_setmtu _, _) => e.kcp.Fresh ∧ e.datagrams = []
  | _ => True

instance (e : Endpoint) (a : IkcpCall × List (List UInt8)) : Decidable (SetsBeforeUse e a) := by
  unfold SetsBeforeUse
  split <;> infer_instance

/-- What holds at one side, whatever arrives. -/
structure Sound (conv : UInt32) (e : Endpoint) : Prop where
  conv_eq : e.kcp.conv = conv
  rcv : e.kcp.RcvSound
  snd : e.kcp.SndSound
  emits : e.kcp.Emits e.datagrams

theorem create_sound (conv : UInt32) : Sound conv (create conv) where
  conv_eq := rfl
  rcv := by
    refine ⟨⟨?_, rfl, Nat.zero_le _, rfl, .nil⟩, fun _ _ heq => nomatch heq⟩
    show (128 : UInt32).toNat < 2 ^ 31
    decide
  snd := by
    refine ⟨rfl, ?_, ?_, ?_, rfl, rfl, .nil, ?_, ?_, ?_⟩
    · show 0 < (1400 - 24 : UInt32).toNat
      decide
    · show (1400 : UInt32).toNat < 2 ^ 30
      decide
    · show (32 : UInt32).toNat < 2 ^ 31
      decide
    · show ((0 : UInt32) - 0).toNat ≤ (32 : UInt32).toNat
      decide
    · exact fun _ hseg => absurd hseg List.not_mem_nil
    · exact fun _ hseg => absurd hseg List.not_mem_nil
  emits := fun _ hd => absurd hd List.not_mem_nil

/-- The datagrams stay as they are, and so do the options that they depend on. -/
theorem Sound.kept (h : Sound conv e) (hdatagrams : e'.datagrams = e.datagrams)
    (hconv : e'.kcp.conv = e.kcp.conv) (hmtu : e'.kcp.mtu = e.kcp.mtu) (hr : e'.kcp.RcvSound)
    (hs : e'.kcp.SndSound) : Sound conv e' := by
  refine ⟨hconv.trans h.conv_eq, hr, hs, ?_⟩
  rw [IKCPCB.Emits, hdatagrams, hconv, hmtu]
  exact h.emits

theorem Sound.settings (h : Sound conv e) (hdatagrams : e'.datagrams = e.datagrams)
    (hsettings : e'.kcp.settings = e.kcp.settings) (hr : e'.kcp.RcvSound)
    (hs : e'.kcp.SndSound) : Sound conv e' :=
  h.kept hdatagrams (congrArg Settings.conv hsettings) (congrArg Settings.mtu hsettings) hr hs

theorem Sound.sameQueues {kcp : IKCPCB} (h : Sound conv e) (hsame : e.kcp.SameQueues kcp) :
    Sound conv (e.setKcp kcp) :=
  h.settings rfl hsame.snd.1 (h.rcv.same hsame.rcv) (h.snd.same hsame.snd)

/-- `ikcp_flush` and `ikcp_update`. -/
theorem Sound.output {r : IKCPCB × List (List UInt8)} (h : Sound conv e)
    (hsettings : r.1.settings = e.kcp.settings) (hr : r.1.RcvSound)
    (hs : r.1.SndSound ∧ e.kcp.Emits r.2) : Sound conv (e.emit r) := by
  have hconv : r.1.conv = e.kcp.conv := congrArg Settings.conv hsettings
  have hmtu : r.1.mtu = e.kcp.mtu := congrArg Settings.mtu hsettings
  refine ⟨hconv.trans h.conv_eq, hr, hs.1, ?_⟩
  intro d hd
  show d ≠ [] ∧ d.length ≤ r.1.mtu.toNat ∧ IsDatagram (fun seg => seg.Fits ∧ seg.conv = r.1.conv) d
  rw [hconv, hmtu]
  rcases List.mem_append.mp hd with hd | hd
  · exact h.emits d hd
  · exact hs.2 d hd

theorem Sound.step {a : IkcpCall × List (List UInt8)} (h : Sound conv e) (ha : SetsBeforeUse e a)
    (hstep : step e a = some e') : Sound conv e' := by
  obtain ⟨c, heard⟩ := a
  have hcall : e.call heard c = some e' := hstep
  cases c with
  | ikcp_send buffer =>
    rw [Endpoint.call] at hcall
    split at hcall
    · rw [← Option.some.inj hcall]
      have honly := IKCPCB.ikcp_send_only e.kcp buffer
      exact h.settings rfl (IKCPCB.ikcp_send_queued h.snd.mss_pos buffer).settings
        (honly.rcvSound h.rcv) (IKCPCB.ikcp_send_sound h.snd buffer)
    · cases hcall
  | ikcp_recv len =>
    rw [← Option.some.inj hcall]
    exact h.settings rfl (e.kcp.ikcp_recv_only len).settings (IKCPCB.ikcp_recv_rcvSound h.rcv len)
      ((e.kcp.ikcp_recv_only len).sndSound h.snd)
  | ikcp_input i =>
    obtain ⟨d, -, heq⟩ := Option.map_eq_some_iff.mp hcall
    rw [← heq]
    exact h.settings rfl (e.kcp.ikcp_input_only d).settings (IKCPCB.ikcp_input_rcvSound h.rcv d)
      (IKCPCB.ikcp_input_sndSound h.snd d)
  | ikcp_update current =>
    rw [← (output_eq_some_iff.mp hcall).2]
    exact h.output (e.kcp.ikcp_update_only current).settings
      ((e.kcp.ikcp_update_only current).rcvSound h.rcv) (IKCPCB.ikcp_update_sound h.snd current)
  | ikcp_flush =>
    rw [← (output_eq_some_iff.mp hcall).2]
    exact h.output e.kcp.ikcp_flush_only.settings (e.kcp.ikcp_flush_only.rcvSound h.rcv)
      (IKCPCB.ikcp_flush_sound e.kcp h.snd)
  | ikcp_nodelay nodelay interval resend nc =>
    rw [← Option.some.inj hcall]
    exact h.sameQueues (e.kcp.ikcp_nodelay_sameQueues nodelay interval resend nc)
  | ikcp_interval interval =>
    rw [← Option.some.inj hcall]
    exact h.sameQueues (e.kcp.ikcp_interval_sameQueues interval)
  | ikcp_wndsize sndwnd rcvwnd =>
    rw [Endpoint.call] at hcall
    split at hcall
    · rename_i hlt
      rw [← Option.some.inj hcall]
      obtain ⟨hr, hs⟩ := IKCPCB.ikcp_wndsize_sound ha h.rcv h.snd hlt.1 hlt.2
      have hoptions : (e.kcp.ikcp_wndsize sndwnd rcvwnd).conv = e.kcp.conv ∧
          (e.kcp.ikcp_wndsize sndwnd rcvwnd).mtu = e.kcp.mtu := by
        rw [IKCPCB.ikcp_wndsize]
        split <;> split <;> exact ⟨rfl, rfl⟩
      exact h.kept rfl hoptions.1 hoptions.2 hr hs
    · cases hcall
  | ikcp_setmtu mtu =>
    rw [Endpoint.call] at hcall
    split at hcall
    · rename_i hlt
      rw [← Option.some.inj hcall]
      obtain ⟨hr, hs⟩ := IKCPCB.ikcp_setmtu_sound ha.1 h.rcv h.snd hlt
      have hconv : (e.kcp.ikcp_setmtu mtu).1.conv = e.kcp.conv := by
        rw [IKCPCB.ikcp_setmtu]
        split <;> rfl
      refine ⟨hconv.trans h.conv_eq, hr, hs, ?_⟩
      intro d hd
      have hd' : d ∈ e.datagrams := hd
      rw [ha.2] at hd'
      exact absurd hd' List.not_mem_nil
    · cases hcall
  | setStream =>
    rw [← Option.some.inj hcall]
    refine h.kept rfl rfl rfl (h.rcv.same ⟨rfl, rfl, rfl, rfl, rfl, rfl⟩) ?_
    exact ⟨h.snd.mtu, h.snd.mss_pos, h.snd.mtu_lt, h.snd.wnd_lt, h.snd.nsnd_que, h.snd.nsnd_buf,
      h.snd.window, h.snd.inflight_le, h.snd.queued, h.snd.numbered⟩

/-- A run of a new control block, where the network brings any bytes. -/
structure Exposed (conv : UInt32) (actions : List (IkcpCall × List (List UInt8))) (e : Endpoint) :
    Prop where
  run : run step (create conv) actions = some e
  sets : Allowed SetsBeforeUse step (create conv) actions

theorem Exposed.sound (h : Exposed conv actions e) : Sound conv e :=
  h.sets.invariant (I := Sound conv) (fun _ _ _ hs ha hstep => hs.step ha hstep) h.run
    (create_sound conv)

/-- Set before use, `mtu` bounds what `ikcp_flush` and `ikcp_update` put into `kcp->buffer`. -/
theorem Exposed.keeps_to_buffer (h : Exposed conv actions e) (current : UInt32) :
    (∀ d ∈ e.kcp.ikcp_flush.2, d.length ≤ e.kcp.bufferSize) ∧
      ∀ d ∈ (e.kcp.ikcp_update current).2, d.length ≤ e.kcp.bufferSize := by
  have hsound := h.sound.snd
  have hlt := hsound.mtu_lt
  have hsize : e.kcp.bufferSize = (e.kcp.mtu.toNat + 24) * 3 := by
    rw [IKCPCB.bufferSize, UInt32.toNat_mul, UInt32.toNat_add,
      show IKCP_OVERHEAD.toNat = 24 from rfl, show (3 : UInt32).toNat = 3 from rfl]
    omega
  have hfits {ds : List (List UInt8)} (hemits : e.kcp.Emits ds) :
      ∀ d ∈ ds, d.length ≤ e.kcp.bufferSize := by
    intro d hd
    have hle := (hemits d hd).2.1
    omega
  exact ⟨hfits (IKCPCB.ikcp_flush_sound e.kcp hsound).2,
    hfits (IKCPCB.ikcp_update_sound hsound current).2⟩

/-- Garbage, then data ahead of its turn from another sender, then a false acknowledgement. -/
def attack : List (IkcpCall × List (List UInt8)) :=
  [(.ikcp_wndsize 64 256, []), (.ikcp_nodelay 1 10 2 1, []), (.ikcp_send [1, 2, 3], []),
    (.ikcp_update 0, []), (.ikcp_input 0, [[5, 4, 3]]),
    (.ikcp_input 0, [[7, 0, 0, 0, 81, 0, 9, 0, 0, 0, 0, 0, 2, 0, 0, 0, 0, 0, 0, 0, 1, 0, 0, 0, 42]]),
    (.ikcp_input 0, [[7, 0, 0, 0, 82, 0, 9, 0, 0, 0, 0, 0, 3, 0, 0, 0, 0, 0, 0, 128, 0, 0, 0, 0]]),
    (.ikcp_send [4], []), (.ikcp_update 10, [])]

def attacked : Endpoint := (run step (create 7) attack).get (by decide +kernel)

theorem attacked_exposed : Exposed 7 attack attacked :=
  ⟨(Option.some_get _).symm, by decide +kernel⟩

/-! ## 3. Bounds -/

/-- What has been received is bounded by the window, stands in the order of its numbers, and has moved
to `rcv_queue` as far as there is room. -/
theorem rcv_bounded (h : Exposed conv actions e) :
    e.kcp.nrcv_que.toNat = e.kcp.rcv_queue.length ∧ e.kcp.nrcv_buf.toNat = e.kcp.rcv_buf.length ∧
      e.kcp.rcv_queue.length ≤ e.kcp.rcv_wnd.toNat ∧ e.kcp.rcv_buf.length ≤ e.kcp.rcv_wnd.toNat ∧
      e.kcp.rcv_buf.Pairwise (fun a b => _itimediff a.sn b.sn < 0) ∧
      ∀ seg ∈ e.kcp.rcv_buf, seg.sn = e.kcp.rcv_nxt →
        e.kcp.rcv_queue.length = e.kcp.rcv_wnd.toNat := by
  have hr := h.sound.rcv
  have hlt := hr.wnd_lt
  refine ⟨hr.nrcv_que, hr.nrcv_buf, hr.queue_le, hr.window.length_le, ?_, ?_⟩
  · refine hr.window.sorted.imp_of_mem fun {a b} ha hb hab => ?_
    have hla := hr.window.within a ha
    have hlb := hr.window.within b hb
    have hab' : e.kcp.rcvOffset a < e.kcp.rcvOffset b := hab
    rw [itimediff_of_offsets (Nat.lt_trans hla hlt) (Nat.lt_trans hlb hlt)]
    unfold IKCPCB.rcvOffset at hab'
    omega
  · intro seg hseg hsn
    obtain ⟨front, rest, hbuf⟩ := List.append_of_mem hseg
    -- nothing is at a smaller distance than 0
    have hfront : front = [] := by
      refine List.eq_nil_iff_forall_not_mem.mpr fun x hx => ?_
      have hsorted := (List.pairwise_append.mp (hbuf ▸ hr.window.sorted)).2.2 x hx seg
        List.mem_cons_self
      have hzero : e.kcp.rcvOffset seg = 0 := by
        rw [IKCPCB.rcvOffset, hsn, UInt32.sub_self]
        rfl
      rw [hzero] at hsorted
      exact Nat.not_lt_zero _ hsorted
    rw [hfront] at hbuf
    have hfull := UInt32.le_iff_toNat_le.mp (hr.moved seg rest hbuf hsn)
    have hque := hr.nrcv_que
    have hle := hr.queue_le
    omega

theorem rcv_bounded_attacked : attacked.kcp.rcv_buf.length ≤ attacked.kcp.rcv_wnd.toNat :=
  (rcv_bounded attacked_exposed).2.2.2.1

/-- What has been sent and is not yet acknowledged is bounded by the window, and stands in the order of
its numbers. -/
theorem snd_bounded (h : Exposed conv actions e) :
    e.kcp.nsnd_buf.toNat = e.kcp.snd_buf.length ∧
      e.kcp.nsnd_que = UInt32.ofNat e.kcp.snd_queue.length ∧
      e.kcp.snd_buf.length ≤ (e.kcp.snd_nxt - e.kcp.snd_una).toNat ∧
      (e.kcp.snd_nxt - e.kcp.snd_una).toNat ≤ e.kcp.snd_wnd.toNat ∧
      e.kcp.snd_buf.Pairwise (fun a b => _itimediff a.sn b.sn < 0) ∧
      ∀ seg ∈ e.kcp.snd_buf, 0 ≤ _itimediff seg.sn e.kcp.snd_una ∧
        _itimediff seg.sn e.kcp.snd_nxt < 0 := by
  have hs := h.sound.snd
  have hlt := hs.wnd_lt
  have hle := hs.inflight_le
  have hinflight := Nat.lt_of_le_of_lt hle hlt
  have hzero : (e.kcp.snd_una - e.kcp.snd_una).toNat = 0 := by
    rw [UInt32.sub_self]
    rfl
  refine ⟨hs.nsnd_buf, hs.nsnd_que, hs.window.length_le, hle, ?_, ?_⟩
  · refine hs.window.sorted.imp_of_mem fun {a b} ha hb hab => ?_
    have hla := hs.window.within a ha
    have hlb := hs.window.within b hb
    have hab' : e.kcp.sndOffset a < e.kcp.sndOffset b := hab
    rw [itimediff_of_offsets (Nat.lt_trans hla hinflight) (Nat.lt_trans hlb hinflight)]
    unfold IKCPCB.sndOffset at hab'
    omega
  · intro seg hseg
    have hwithin := hs.window.within seg hseg
    have hsn := Nat.lt_trans hwithin hinflight
    rw [itimediff_of_offsets hsn (hzero ▸ by decide), itimediff_of_offsets hsn hinflight, hzero]
    unfold IKCPCB.sndOffset IKCPCB.inflight at hwithin
    omega

theorem snd_bounded_attacked :
    (attacked.kcp.snd_nxt - attacked.kcp.snd_una).toNat ≤ attacked.kcp.snd_wnd.toNat :=
  (snd_bounded attacked_exposed).2.2.2.1

/-- What is handed to `output` fits into `mtu`, and each control block of the conversation accepts
it. -/
theorem datagram_accepted (h : Exposed conv actions e) {d : List UInt8} (hd : d ∈ e.datagrams) :
    d ≠ [] ∧ d.length ≤ e.kcp.mtu.toNat ∧
      ∀ kcp : IKCPCB, kcp.conv = conv → (kcp.ikcp_input d).2 = 0 := by
  obtain ⟨hne, hle, segs, rfl, hsegs⟩ := h.sound.emits d hd
  refine ⟨hne, hle, fun kcp hconv => ?_⟩
  have hfits : ∀ seg ∈ segs, seg.Fits ∧ seg.conv = kcp.conv := by
    intro seg hseg
    obtain ⟨hfit, heq⟩ := hsegs seg hseg
    exact ⟨hfit, heq.trans (h.sound.conv_eq.trans hconv.symm)⟩
  have hsome : segs ≠ [] := by
    rintro rfl
    exact hne rfl
  rw [IKCPCB.ikcp_input_segments hfits hsome]

theorem datagram_accepted_attacked :
    ((IKCPCB.ikcp_create 7).ikcp_input (attacked.datagrams.head (by decide +kernel))).2 = 0 :=
  (datagram_accepted attacked_exposed (List.head_mem _)).2.2 _ rfl

end Endpoint

end LuaServer
