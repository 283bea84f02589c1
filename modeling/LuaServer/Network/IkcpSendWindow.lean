import LuaServer.Network.IkcpWindow

/-!
# IkcpSendWindow — the window of what is sent, whatever bytes arrive

What is in `snd_buf` stands in the order of its numbers, counted from `snd_una`, and lies in the window.
All segments are short enough for a datagram.
-/

open Reasoning

namespace LuaServer

namespace IKCPCB

variable {kcp kcp' : IKCPCB}

/-! ## 1. The queues of the sender -/

def sndOffset (kcp : IKCPCB) (seg : IKCPSEG) : Nat := (seg.sn - kcp.snd_una).toNat

/-- How many numbers lie between `snd_una` and `snd_nxt`. -/
def inflight (kcp : IKCPCB) : Nat := (kcp.snd_nxt - kcp.snd_una).toNat

/-- A segment for the network: a fragment that is not too long. -/
def Cut (kcp : IKCPCB) (seg : IKCPSEG) : Prop :=
  seg.frg.toNat < 128 ∧ seg.data.length ≤ kcp.mss.toNat

/-- The queues of the sender and their counters; the application may put any number of segments into
`snd_queue`. -/
structure SndSound (kcp : IKCPCB) : Prop where
  mtu : kcp.mtu.toNat = kcp.mss.toNat + 24
  mss_pos : 0 < kcp.mss.toNat
  mtu_lt : kcp.mtu.toNat < 2 ^ 30
  wnd_lt : kcp.snd_wnd.toNat < 2 ^ 31
  nsnd_que : kcp.nsnd_que = UInt32.ofNat kcp.snd_queue.length
  nsnd_buf : kcp.nsnd_buf.toNat = kcp.snd_buf.length
  window : InWindow kcp.sndOffset kcp.inflight kcp.snd_buf
  inflight_le : kcp.inflight ≤ kcp.snd_wnd.toNat
  queued : ∀ seg ∈ kcp.snd_queue, kcp.Cut seg
  numbered : ∀ seg ∈ kcp.snd_buf, seg.conv = kcp.conv ∧ seg.cmd = IKCP_CMD_PUSH ∧ kcp.Cut seg

/-- The fields of the sender and the options are the same. -/
def SameSnd (kcp kcp' : IKCPCB) : Prop :=
  kcp'.settings = kcp.settings ∧ kcp'.snd_una = kcp.snd_una ∧ kcp'.snd_nxt = kcp.snd_nxt ∧
    kcp'.nsnd_que = kcp.nsnd_que ∧ kcp'.nsnd_buf = kcp.nsnd_buf ∧
    kcp'.snd_queue = kcp.snd_queue ∧ kcp'.snd_buf = kcp.snd_buf

theorem SndSound.same (h : kcp.SndSound) (hsame : kcp.SameSnd kcp') : kcp'.SndSound := by
  obtain ⟨hsettings, huna, hnxt, hnque, hnbuf, hqueue, hbuf⟩ := hsame
  have hconv : kcp'.conv = kcp.conv := congrArg Settings.conv hsettings
  have hmtu : kcp'.mtu = kcp.mtu := congrArg Settings.mtu hsettings
  have hmss : kcp'.mss = kcp.mss := congrArg Settings.mss hsettings
  have hwnd : kcp'.snd_wnd = kcp.snd_wnd := congrArg Settings.snd_wnd hsettings
  have hoffset : kcp'.sndOffset = kcp.sndOffset := by
    funext seg
    rw [sndOffset, sndOffset, huna]
  have hinflight : kcp'.inflight = kcp.inflight := by
    rw [inflight, inflight, hnxt, huna]
  have hcut : kcp'.Cut = kcp.Cut := by
    funext seg
    rw [Cut, Cut, hmss]
  refine ⟨?_, hmss ▸ h.mss_pos, hmtu ▸ h.mtu_lt, hwnd ▸ h.wnd_lt, ?_, ?_, ?_, ?_, ?_, ?_⟩
  · rw [hmtu, hmss]
    exact h.mtu
  · rw [hnque, hqueue]
    exact h.nsnd_que
  · rw [hnbuf, hbuf]
    exact h.nsnd_buf
  · rw [hoffset, hinflight, hbuf]
    exact h.window
  · rw [hinflight, hwnd]
    exact h.inflight_le
  · rw [hqueue, hcut]
    exact h.queued
  · rw [hbuf, hconv, hcut]
    exact h.numbered

/-- Some segments leave `snd_buf`. -/
theorem setSndBuf_sound {buf : List IKCPSEG} (h : kcp.SndSound) (hsub : buf.Sublist kcp.snd_buf) :
    (kcp.setSndBuf buf).SndSound := by
  have hlen := hsub.length_le
  have hcount := h.nsnd_buf
  have hlt := kcp.nsnd_buf.toNat_lt
  refine ⟨h.mtu, h.mss_pos, h.mtu_lt, h.wnd_lt, h.nsnd_que, ?_, h.window.sublist hsub,
    h.inflight_le, h.queued, fun seg hseg => h.numbered seg (hsub.subset hseg)⟩
  show (kcp.nsnd_buf - UInt32.ofNat (kcp.snd_buf.length - buf.length)).toNat = buf.length
  rw [UInt32.toNat_sub, UInt32.toNat_ofNat']
  omega

theorem removeSegment_sublist (sn : UInt32) (buf : List IKCPSEG) :
    (removeSegment sn buf).Sublist buf := by
  induction buf with
  | nil => exact List.Sublist.refl _
  | cons seg rest ih =>
    rw [removeSegment]
    split
    · exact List.sublist_cons_self seg rest
    split
    · exact List.Sublist.refl _
    · exact ih.cons_cons seg

theorem ikcp_parse_ack_sound (h : kcp.SndSound) (sn : UInt32) : (kcp.ikcp_parse_ack sn).SndSound := by
  rw [ikcp_parse_ack]
  split
  · exact h
  · exact setSndBuf_sound h (removeSegment_sublist sn _)

theorem ikcp_parse_una_sound (h : kcp.SndSound) (una : UInt32) :
    (kcp.ikcp_parse_una una).SndSound :=
  setSndBuf_sound h (List.dropWhile_sublist _)

/-- The base of the window moves up to a number in it, or to its end. -/
theorem rebase_sound {una : UInt32} (h : kcp.SndSound)
    (huna : (una - kcp.snd_una).toNat ≤ kcp.inflight)
    (hbelow : ∀ seg ∈ kcp.snd_buf, (una - kcp.snd_una).toNat ≤ kcp.sndOffset seg) :
    ({ kcp with snd_una := una } : IKCPCB).SndSound := by
  have hinflight : (kcp.snd_nxt - una).toNat + (una - kcp.snd_una).toNat = kcp.inflight := by
    unfold inflight at huna ⊢
    simp only [UInt32.toNat_sub] at huna ⊢
    have hltn := kcp.snd_nxt.toNat_lt
    have hltu := kcp.snd_una.toNat_lt
    have hlt := una.toNat_lt
    omega
  have hle := h.inflight_le
  refine ⟨h.mtu, h.mss_pos, h.mtu_lt, h.wnd_lt, h.nsnd_que, h.nsnd_buf, ?_, ?_, h.queued,
    h.numbered⟩
  · refine h.window.rebase (d := (una - kcp.snd_una).toNat) ?_ hinflight.ge
    intro seg hseg
    have hseg' := hbelow seg hseg
    unfold sndOffset at hseg' ⊢
    simp only [UInt32.toNat_sub] at hseg' ⊢
    have hlts := seg.sn.toNat_lt
    have hltu := kcp.snd_una.toNat_lt
    have hlt := una.toNat_lt
    omega
  · show (kcp.snd_nxt - una).toNat ≤ kcp.snd_wnd.toNat
    omega

theorem ikcp_shrink_buf_sound (h : kcp.SndSound) : kcp.ikcp_shrink_buf.SndSound := by
  rw [ikcp_shrink_buf]
  split
  · rename_i seg rest hbuf
    have hwindow := hbuf ▸ h.window
    apply rebase_sound h (hwindow.within seg List.mem_cons_self).le
    intro x hx
    rw [hbuf] at hx
    rcases List.mem_cons.mp hx with rfl | hx
    · exact Nat.le_refl _
    · exact ((List.pairwise_cons.mp hwindow.sorted).1 x hx).le
  · rename_i hbuf
    apply rebase_sound h (Nat.le_refl _)
    intro x hx
    rw [hbuf] at hx
    exact absurd hx List.not_mem_nil

/-- Segments may change but for what has been sent of them. -/
theorem sameSegments_sound {buf : List IKCPSEG} (h : kcp.SndSound)
    (hsame : buf.map IKCPSEG.numbered = kcp.snd_buf.map IKCPSEG.numbered) :
    ({ kcp with snd_buf := buf } : IKCPCB).SndSound := by
  have hlen : buf.length = kcp.snd_buf.length := by
    have hlength := congrArg List.length hsame
    rwa [List.length_map, List.length_map] at hlength
  refine ⟨h.mtu, h.mss_pos, h.mtu_lt, h.wnd_lt, h.nsnd_que, h.nsnd_buf.trans hlen.symm, ?_,
    h.inflight_le, h.queued, ?_⟩
  · refine h.window.map ?_
    have hoffsets := congrArg (List.map fun s : Numbered => (s.sn - kcp.snd_una).toNat) hsame
    rw [List.map_map, List.map_map] at hoffsets
    exact hoffsets
  · intro seg hseg
    have hmem : seg.numbered ∈ kcp.snd_buf.map IKCPSEG.numbered :=
      hsame ▸ List.mem_map_of_mem hseg
    obtain ⟨x, hx, heq⟩ := List.mem_map.mp hmem
    have hconv : x.conv = seg.conv := congrArg Numbered.conv heq
    have hcmd : x.cmd = seg.cmd := congrArg Numbered.cmd heq
    have hfrg : x.frg = seg.frg := congrArg (fun s => s.fragment.frg) heq
    have hdata : x.data = seg.data := congrArg (fun s => s.fragment.data) heq
    have hold := h.numbered x hx
    rw [Cut, hconv, hcmd, hfrg, hdata] at hold
    exact hold

theorem RcvOnly.sndSound (h : kcp.RcvOnly kcp') (hk : kcp.SndSound) : kcp'.SndSound := by
  obtain ⟨r, rfl⟩ := h
  exact hk.same ⟨rfl, rfl, rfl, rfl, rfl, rfl, rfl⟩

/-- Fields that neither the queues nor the options are. -/
theorem setCwnd_sound (h : kcp.SndSound) (w : UInt32 × UInt32) : (kcp.setCwnd w).SndSound :=
  h.same ⟨rfl, rfl, rfl, rfl, rfl, rfl, rfl⟩

theorem setRto_sound (h : kcp.SndSound) (rx_rttval rx_srtt rx_rto : Int) :
    (kcp.setRto rx_rttval rx_srtt rx_rto).SndSound :=
  h.same ⟨rfl, rfl, rfl, rfl, rfl, rfl, rfl⟩

theorem setRmtWnd_sound (h : kcp.SndSound) (wnd : UInt32) :
    ({ kcp with rmt_wnd := wnd } : IKCPCB).SndSound :=
  h.same ⟨rfl, rfl, rfl, rfl, rfl, rfl, rfl⟩

theorem ikcp_parse_fastack_sound (h : kcp.SndSound) (sn : UInt32) :
    (kcp.ikcp_parse_fastack sn).SndSound := by
  rw [ikcp_parse_fastack]
  split
  · exact h
  · exact sameSegments_sound h (numbered_countFastack sn _)

theorem afterLoop_sndSound (kcp : IKCPCB) (flag : MaxAck) (prev_una : UInt32) (h : kcp.SndSound) :
    (kcp.afterLoop flag prev_una).SndSound := by
  have hgrow (k : IKCPCB) (hk : k.SndSound) : (k.growCwnd prev_una).SndSound := by
    rw [growCwnd]
    split
    · exact setCwnd_sound hk _
    · exact hk
  cases flag with
  | none => exact hgrow kcp h
  | some maxack => exact hgrow _ (ikcp_parse_fastack_sound h maxack)

theorem inputHead_sound (h : kcp.SndSound) (seg : IKCPSEG) : (kcp.inputHead seg).SndSound :=
  ikcp_shrink_buf_sound (ikcp_parse_una_sound (setRmtWnd_sound h seg.wnd) seg.una)

theorem inputAck_sound (h : kcp.SndSound) (seg : IKCPSEG) : (kcp.inputAck seg).SndSound := by
  unfold inputAck
  extract_lets rtt k
  have hk : k.SndSound := by
    unfold k
    split
    · unfold ikcp_update_ack
      exact setRto_sound h _ _ _
    · exact h
  exact ikcp_shrink_buf_sound (ikcp_parse_ack_sound hk seg.sn)

theorem inputSegment_sndSound (kcp : IKCPCB) (flag : MaxAck) (seg : IKCPSEG) (h : kcp.SndSound) :
    (kcp.inputSegment flag seg).1.SndSound := by
  have hhead := inputHead_sound h seg
  rw [inputSegment]
  generalize kcp.inputHead seg = k at hhead
  rw [inputCommand]
  split
  · dsimp only
    exact inputAck_sound hhead seg
  split
  · dsimp only
    exact (inputPush_only k seg).sndSound hhead
  split
  · exact RcvOnly.sndSound ⟨⟨_, _, _, _, _, _, _⟩, rfl⟩ hhead
  · exact hhead

/-- Whatever bytes arrive. -/
theorem ikcp_input_sndSound (h : kcp.SndSound) (data : List UInt8) :
    (kcp.ikcp_input data).1.SndSound :=
  ikcp_input_keeps inputSegment_sndSound afterLoop_sndSound h data

/-! ## 2. Numbers and datagrams -/

/-- A segment gets its number while the number is in the window of the sender. -/
theorem moveQueue_sound {cwnd : UInt32} {queue : List IKCPSEG}
    (h : ({ kcp with snd_queue := queue } : IKCPCB).SndSound) (hcwnd : cwnd ≤ kcp.snd_wnd) :
    (moveQueue cwnd kcp queue).SndSound := by
  induction queue generalizing kcp with
  | nil => exact h
  | cons seg rest ih =>
    rw [moveQueue]
    split
    · rename_i hwindow
      have hwnd : kcp.snd_wnd.toNat < 2 ^ 31 := h.wnd_lt
      have hle : (kcp.snd_nxt - kcp.snd_una).toNat ≤ kcp.snd_wnd.toNat := h.inflight_le
      have hcwnd' := UInt32.le_iff_toNat_le.mp hcwnd
      have hend : (kcp.snd_una + cwnd - kcp.snd_una).toNat = cwnd.toNat := by
        rw [UInt32.add_comm, UInt32.add_sub_cancel]
      rw [itimediff_of_offsets (Nat.lt_of_le_of_lt hle hwnd) (by omega), hend] at hwindow
      have hnext : (kcp.snd_nxt + 1 - kcp.snd_una).toNat =
          (kcp.snd_nxt - kcp.snd_una).toNat + 1 := by
        simp only [UInt32.toNat_sub, UInt32.toNat_add, UInt32.toNat_one] at hwindow ⊢
        have hltn := kcp.snd_nxt.toNat_lt
        have hltu := kcp.snd_una.toNat_lt
        omega
      have hlen := h.window.length_le
      have hbuf : kcp.nsnd_buf.toNat = kcp.snd_buf.length := h.nsnd_buf
      refine ih ⟨h.mtu, h.mss_pos, h.mtu_lt, h.wnd_lt, ?_, ?_, ?_, ?_,
        fun s hs => h.queued s (List.mem_cons_of_mem _ hs), ?_⟩ hcwnd
      · show kcp.nsnd_que - 1 = UInt32.ofNat rest.length
        have hque : kcp.nsnd_que = UInt32.ofNat (rest.length + 1) := h.nsnd_que
        rw [hque, UInt32.ofNat_add]
        exact UInt32.add_sub_cancel _ _
      · show (kcp.nsnd_buf + 1).toNat = (kcp.snd_buf ++ [kcp.numberSegment seg]).length
        have hlen' : kcp.snd_buf.length ≤ (kcp.snd_nxt - kcp.snd_una).toNat := hlen
        rw [UInt32.toNat_add, UInt32.toNat_one, List.length_append, List.length_singleton]
        omega
      · show InWindow kcp.sndOffset (kcp.snd_nxt + 1 - kcp.snd_una).toNat
          (kcp.snd_buf ++ [kcp.numberSegment seg])
        rw [hnext]
        have hold : InWindow kcp.sndOffset ((kcp.snd_nxt - kcp.snd_una).toNat + 1)
            (kcp.snd_buf ++ []) := by
          rw [List.append_nil]
          exact h.window.rebase (d := 0) (fun _ _ => rfl) (Nat.le_succ _)
        exact hold.insert (fun x hx => h.window.within x hx)
          (fun _ hx => absurd hx List.not_mem_nil) (Nat.lt_succ_self _)
      · show (kcp.snd_nxt + 1 - kcp.snd_una).toNat ≤ kcp.snd_wnd.toNat
        rw [hnext]
        omega
      · intro s hs
        rcases List.mem_append.mp hs with hs | hs
        · exact h.numbered s hs
        · rw [List.mem_singleton.mp hs]
          exact ⟨rfl, rfl, h.queued seg List.mem_cons_self⟩
    · exact h

theorem sendWindow_le (kcp : IKCPCB) : kcp.sendWindow ≤ kcp.snd_wnd := by
  have hmin (a b : UInt32) : _imin_ a b ≤ a ∧ _imin_ a b ≤ b := by
    rw [_imin_]
    split
    · rename_i hle
      exact ⟨UInt32.le_refl a, hle⟩
    · rename_i hle
      exact ⟨UInt32.le_of_lt (UInt32.not_le.mp hle), UInt32.le_refl b⟩
  unfold sendWindow
  extract_lets cwnd
  split
  · exact UInt32.le_trans (hmin _ _).2 (hmin _ _).1
  · exact (hmin _ _).1

/-- What is handed to `output` are whole segments, in datagrams that are not too long. -/
structure Proper (kcp : IKCPCB) (o : Output) : Prop where
  holds : o.Holds fun seg => seg.Fits ∧ seg.conv = kcp.conv
  bounded : o.Bounded kcp.mtu.toNat

theorem Proper.put {o : Output} {seg : IKCPSEG} (ho : kcp.Proper o)
    (hseg : (seg.Fits ∧ seg.conv = kcp.conv) ∧ seg.wire.length ≤ kcp.mtu.toNat) :
    kcp.Proper (o.put kcp.mtu.toNat seg.wire) :=
  ⟨ho.holds.put _ hseg.1, ho.bounded.put hseg.2⟩

theorem controlSegment_proper (h : kcp.SndSound) {cmd : UInt32} (hcmd : IsCommand cmd)
    (numbers : UInt32 × UInt32) :
    ((kcp.controlSegment cmd numbers).Fits ∧ (kcp.controlSegment cmd numbers).conv = kcp.conv) ∧
      (kcp.controlSegment cmd numbers).wire.length ≤ kcp.mtu.toNat := by
  have hmtu := h.mtu
  refine ⟨⟨⟨hcmd, show (0 : UInt32).toNat < 256 by decide, show 0 < 2 ^ 31 by decide⟩, rfl⟩, ?_⟩
  rw [IKCPSEG.wire_length]
  show 24 + 0 ≤ _
  omega

theorem cut_proper {s segment : IKCPSEG} (h : kcp.SndSound) (hmem : segment ∈ kcp.snd_buf)
    (hsame : s.numbered = segment.numbered) :
    (s.Fits ∧ s.conv = kcp.conv) ∧ s.wire.length ≤ kcp.mtu.toNat := by
  obtain ⟨hconv, hcmd, hfrg, hlen⟩ := h.numbered segment hmem
  have hconv' : s.conv = segment.conv := congrArg Numbered.conv hsame
  have hcmd' : s.cmd = segment.cmd := congrArg Numbered.cmd hsame
  have hfrg' : s.frg = segment.frg := congrArg (fun s => s.fragment.frg) hsame
  have hdata : s.data = segment.data := congrArg (fun s => s.fragment.data) hsame
  have hmtu := h.mtu
  have hlt := h.mtu_lt
  refine ⟨⟨⟨.inl (hcmd'.trans hcmd), ?_, ?_⟩, hconv'.trans hconv⟩, ?_⟩
  · rw [hfrg']
    exact Nat.lt_trans hfrg (by decide)
  · rw [hdata]
    omega
  · rw [IKCPSEG.wire_length, hdata]
    omega

theorem flushProbe_sound (h : kcp.SndSound) : kcp.flushProbe.SndSound := by
  have hset (probe_wait ts_probe probe : UInt32) :
      (kcp.setProbe probe_wait ts_probe probe).SndSound :=
    h.same ⟨rfl, rfl, rfl, rfl, rfl, rfl, rfl⟩
  rw [flushProbe]
  split
  · split
    · exact hset _ _ _
    split
    · exact hset _ _ _
    · exact h
  · exact hset _ _ _

theorem flushControl_proper (h : kcp.SndSound) : kcp.flushControl.1.SndSound ∧
    kcp.Proper kcp.flushControl.2 := by
  have hprobe := flushProbe_sound h
  have hsettings := (flushProbe_only kcp).settings
  have hconv : kcp.flushProbe.conv = kcp.conv := congrArg Settings.conv hsettings
  have hmtu : kcp.flushProbe.mtu = kcp.mtu := congrArg Settings.mtu hsettings
  have hsame (o : Output) : kcp.flushProbe.Proper o ↔ kcp.Proper o := by
    constructor
    · intro ho
      exact ⟨hconv ▸ ho.holds, hmtu ▸ ho.bounded⟩
    · intro ho
      exact ⟨hconv ▸ ho.holds, hmtu ▸ ho.bounded⟩
  refine ⟨hprobe.same ⟨rfl, rfl, rfl, rfl, rfl, rfl, rfl⟩, ?_⟩
  apply (hsame _).mp
  refine flushCommands_keeps (fun _ _ ho hseg => Proper.put ho hseg)
    (controlSegment_proper hprobe (.inr (.inr (.inl rfl))))
    (controlSegment_proper hprobe (.inr (.inr (.inr rfl)))) ?_
  apply (hsame _).mpr
  exact flushAcks_keeps (fun _ _ ho hseg => Proper.put ho hseg)
    ⟨Output.empty_holds, ⟨Nat.zero_le _, fun _ hd => absurd hd List.not_mem_nil⟩⟩
    fun a _ => controlSegment_proper h (.inr (.inl rfl)) a

theorem updateSsthresh_sound (h : kcp.SndSound) (resent cwnd : UInt32) (change lost : Bool) :
    (kcp.updateSsthresh resent cwnd change lost).SndSound := by
  have hset (k : IKCPCB) (hk : k.SndSound) (ssthresh : UInt32) (w : UInt32 × UInt32) :
      ({ k with ssthresh := ssthresh }.setCwnd w).SndSound :=
    hk.same ⟨rfl, rfl, rfl, rfl, rfl, rfl, rfl⟩
  unfold updateSsthresh
  extract_lets k₁ k₂
  have h₁ : k₁.SndSound := by
    unfold k₁
    split
    · exact hset kcp h _ _
    · exact h
  have h₂ : k₂.SndSound := by
    unfold k₂
    split
    · exact hset k₁ h₁ _ _
    · exact h₁
  split
  · exact setCwnd_sound h₂ _
  · exact h₂

/-- The datagrams of a flush: none is empty or longer than `mtu`, and all are whole segments. -/
def Emits (kcp : IKCPCB) (ds : List (List UInt8)) : Prop :=
  ∀ d ∈ ds, d ≠ [] ∧ d.length ≤ kcp.mtu.toNat ∧
    IsDatagram (fun seg => seg.Fits ∧ seg.conv = kcp.conv) d

theorem flushData_sound {o : Output} (h : kcp.SndSound) (ho : kcp.Proper o) (cwnd : UInt32) :
    (kcp.flushData cwnd o).1.SndSound ∧ kcp.Emits (kcp.flushData cwnd o).2 := by
  unfold flushData
  extract_lets resent rtomin r
  have hproper : kcp.Proper r.1.out :=
    flushSegments_keeps resent rtomin (fun _ _ ho hseg => Proper.put ho hseg)
      (fun _ hmem _ hsame _ => cut_proper h hmem hsame) ho
  have hsame : ({ kcp with snd_buf := r.2 } : IKCPCB).SndSound :=
    sameSegments_sound h (flushSegments_numbered resent rtomin _ kcp.snd_buf)
  have hflushed : (kcp.setFlushed r).SndSound :=
    hsame.same ⟨rfl, rfl, rfl, rfl, rfl, rfl, rfl⟩
  refine ⟨updateSsthresh_sound hflushed _ _ _ _, fun d hd => ?_⟩
  exact ⟨(hproper.holds.output.datagrams d hd).1, hproper.bounded.output.datagrams d hd,
    (hproper.holds.output.datagrams d hd).2⟩

theorem ikcp_flush_sound (kcp : IKCPCB) (h : kcp.SndSound) :
    kcp.ikcp_flush.1.SndSound ∧ kcp.Emits kcp.ikcp_flush.2 := by
  unfold ikcp_flush
  split
  · exact ⟨h, fun _ hd => absurd hd List.not_mem_nil⟩
  extract_lets r cwnd
  obtain ⟨hcontrol, hproper⟩ := flushControl_proper h
  have hmoved : (moveQueue cwnd r.1 r.1.snd_queue).SndSound :=
    moveQueue_sound hcontrol (sendWindow_le r.1)
  have hsettings := ((flushControl_only kcp).trans (moveQueue_only r.1 cwnd r.1.snd_queue)).settings
  have hconv : (moveQueue cwnd r.1 r.1.snd_queue).conv = kcp.conv :=
    congrArg Settings.conv hsettings
  have hmtu : (moveQueue cwnd r.1 r.1.snd_queue).mtu = kcp.mtu :=
    congrArg Settings.mtu hsettings
  have hdata := flushData_sound hmoved
    ⟨hconv.symm ▸ hproper.holds, hmtu.symm ▸ hproper.bounded⟩ cwnd
  rw [Emits, hconv, hmtu] at hdata
  exact hdata

theorem ikcp_update_sound (h : kcp.SndSound) (current : UInt32) :
    (kcp.ikcp_update current).1.SndSound ∧ kcp.Emits (kcp.ikcp_update current).2 := by
  have hcurrent : (kcp.setCurrent current).SndSound := by
    rw [setCurrent]
    split
    · exact h.same ⟨rfl, rfl, rfl, rfl, rfl, rfl, rfl⟩
    · exact h.same ⟨rfl, rfl, rfl, rfl, rfl, rfl, rfl⟩
  have hsettings (ts_flush : UInt32) :
      ((kcp.setCurrent current).setFlushTime ts_flush).settings = kcp.settings :=
    ((setCurrent_only kcp current).trans (setFlushTime_only _ ts_flush)).settings
  have hflush (ts_flush : UInt32) :
      ((kcp.setCurrent current).setFlushTime ts_flush).ikcp_flush.1.SndSound ∧
        kcp.Emits ((kcp.setCurrent current).setFlushTime ts_flush).ikcp_flush.2 := by
    have hconv : ((kcp.setCurrent current).setFlushTime ts_flush).conv = kcp.conv :=
      congrArg Settings.conv (hsettings ts_flush)
    have hmtu : ((kcp.setCurrent current).setFlushTime ts_flush).mtu = kcp.mtu :=
      congrArg Settings.mtu (hsettings ts_flush)
    have hset : ((kcp.setCurrent current).setFlushTime ts_flush).SndSound :=
      hcurrent.same ⟨rfl, rfl, rfl, rfl, rfl, rfl, rfl⟩
    have hsound := ikcp_flush_sound _ hset
    rw [Emits, hconv, hmtu] at hsound
    exact hsound
  rw [ikcp_update]
  split
  · exact hflush _
  split
  · exact hflush _
  · exact ⟨hcurrent, fun _ hd => absurd hd List.not_mem_nil⟩

theorem sendFragments_counted (h : kcp.nsnd_que = UInt32.ofNat kcp.snd_queue.length)
    (buffer : List UInt8) : (kcp.sendFragments buffer).1.nsnd_que =
      UInt32.ofNat (kcp.sendFragments buffer).1.snd_queue.length := by
  unfold sendFragments
  extract_lets count count'
  split
  · exact h
  · dsimp only
    rw [List.length_append, fragment_length, UInt32.ofNat_add, h]

theorem extendLast_counted (h : kcp.nsnd_que = UInt32.ofNat kcp.snd_queue.length)
    (buffer : List UInt8) : (kcp.extendLast buffer).1.nsnd_que =
      UInt32.ofNat (kcp.extendLast buffer).1.snd_queue.length := by
  rcases extendLast_cases kcp buffer with heq | ⟨front, old, n, hqueue, -, -, heq⟩
  · rw [heq]
    exact h
  · rw [heq]
    rw [hqueue, List.length_append] at h
    exact h.trans (by rw [setSndQueue, List.length_append]; rfl)

theorem ikcp_send_counted (h : kcp.nsnd_que = UInt32.ofNat kcp.snd_queue.length)
    (buffer : List UInt8) : (kcp.ikcp_send buffer).1.nsnd_que =
      UInt32.ofNat (kcp.ikcp_send buffer).1.snd_queue.length := by
  unfold ikcp_send
  extract_lets r
  split
  · split
    · exact extendLast_counted h buffer
    · exact sendFragments_counted (extendLast_counted h buffer) r.2
  · exact sendFragments_counted h buffer

/-- Messages are cut into segments that are not too long. -/
theorem ikcp_send_sound (h : kcp.SndSound) (buffer : List UInt8) :
    (kcp.ikcp_send buffer).1.SndSound := by
  have hcount := ikcp_send_counted h.nsnd_que buffer
  have hfits := (ikcp_send_queued h.mss_pos buffer).fits
  obtain ⟨queue, count, heq⟩ := ikcp_send_only kcp buffer
  rw [heq] at hcount hfits ⊢
  exact ⟨h.mtu, h.mss_pos, h.mtu_lt, h.wnd_lt, hcount, h.nsnd_buf, h.window, h.inflight_le,
    fun seg hseg => (hfits seg hseg).elim (h.queued seg) id, h.numbered⟩

end IKCPCB

end LuaServer
