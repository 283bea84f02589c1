import LuaServer.Network.IkcpFlow

/-!
# IkcpFlush — what a control block tells the peer is true

`ikcp_flush` gives numbers to segments, and hands out datagrams that acknowledge what has arrived and
carry what has been sent.
-/

open Reasoning

namespace LuaServer

/-! ## 1. Segments that get their numbers -/

section
variable {t t' : Transfer Fragment}

/-- Numbers are given to what is waiting, in order. -/
def Numbers (t t' : Transfer Fragment) : Prop :=
  t.Sends t' ∧ t'.sent ++ t'.waiting = t.sent ++ t.waiting

theorem Numbers.few (h : Numbers t t') (hfew : Few t) : Few t' := by
  rw [Few, ← List.length_append, h.2, List.length_append]
  exact hfew

theorem Numbers.fitsAll (h : Numbers t t') (hfits : FitsAll t) : FitsAll t' := by
  rw [FitsAll, h.2]
  exact hfits

/-- The segment at the front of `snd_queue` gets the next number. -/
theorem Sending.Stands.number {v : Sending} {f : Fragment} (rest : List Fragment)
    (h : v.Stands t) (hfew : Few t) (hqueue : v.queue = f :: rest) :
    ∃ t', t.Send t' ∧ t'.sent ++ t'.waiting = t.sent ++ t.waiting ∧
      ({ v with
        snd_nxt := v.snd_nxt + 1
        queue := rest
        buf := v.buf ++ [⟨v.conv, IKCP_CMD_PUSH, v.snd_nxt, f⟩] } : Sending).Stands t' := by
  have hsmall := hfew.sent_lt
  have hwaiting : t.waiting = f :: rest := h.waiting ▸ hqueue
  have hlast : (t.sent ++ [f])[v.snd_nxt.toNat]? = some f := by
    rw [h.next]
    exact List.getElem?_concat_length
  refine ⟨_, .number t f rest hwaiting, ?_, ?_, rfl, ?_, ?_⟩
  · rw [hwaiting]
    exact List.append_assoc t.sent [f] rest
  · show (v.snd_nxt + 1).toNat = (t.sent ++ [f]).length
    rw [UInt32.toNat_add, UInt32.toNat_one, h.next, List.length_append, List.length_singleton]
    omega
  · intro s hs
    rcases List.mem_append.mp hs with hs | hs
    · obtain ⟨hconv, hcmd, hsent⟩ := h.buf s hs
      exact ⟨hconv, hcmd, getElem?_of_prefix (List.prefix_append _ _) hsent⟩
    · rw [List.mem_singleton.mp hs]
      exact ⟨rfl, rfl, hlast⟩
  · rintro i (rfl | hi)
    · exact ⟨_, List.mem_append_right _ List.mem_cons_self, h.next⟩
    · obtain ⟨s, hs, hsi⟩ := h.pending i hi
      exact ⟨s, List.mem_append_left _ hs, hsi⟩

namespace IKCPCB

variable {kcp : IKCPCB}

theorem moveQueue_stands (kcp : IKCPCB) (cwnd : UInt32) {queue : List IKCPSEG}
    (h : ({ kcp with snd_queue := queue } : IKCPCB).sending.Stands t) (hfew : Few t) :
    ∃ t', Numbers t t' ∧ (moveQueue cwnd kcp queue).sending.Stands t' := by
  induction queue generalizing kcp t with
  | nil => exact ⟨t, ⟨.refl, rfl⟩, h⟩
  | cons seg rest ih =>
    rw [moveQueue]
    split
    · obtain ⟨t₁, hstep, hsame, hstands⟩ :=
        Sending.Stands.number (rest.map IKCPSEG.fragment) h hfew rfl
      have hnumbers : Numbers t t₁ := ⟨.single hstep, hsame⟩
      refine (ih _ ?_ (hnumbers.few hfew)).imp fun t' ht' =>
        ⟨⟨.head hstep ht'.1.1, ht'.1.2.trans hsame⟩, ht'.2⟩
      show Sending.Stands ⟨_, _, _, List.map _ (_ ++ [kcp.numberSegment seg])⟩ t₁
      rw [List.map_append]
      exact hstands
    · exact ⟨t, ⟨.refl, rfl⟩, h⟩

theorem moveQueue_receiving (cwnd : UInt32) (kcp : IKCPCB) (queue : List IKCPSEG) :
    (moveQueue cwnd kcp queue).receiving = kcp.receiving := by
  induction queue generalizing kcp with
  | nil => rfl
  | cons seg rest ih =>
    rw [moveQueue]
    split
    · exact ih _
    · rfl

end IKCPCB

end

/-! ## 2. What is put into datagrams -/

namespace IKCPCB

section
variable {kcp : IKCPCB} {P : Output → Prop} {Q : IKCPSEG → Prop} {o : Output}

/-- A segment without data. -/
theorem controlSegment_wire (kcp : IKCPCB) (cmd : UInt32) (numbers : UInt32 × UInt32) :
    ikcp_encode_seg (kcp.controlSegment cmd numbers) = (kcp.controlSegment cmd numbers).wire :=
  (List.append_nil _).symm

/-- What holds of the output while segments with `Q` are put into it. -/
theorem flushAcks_keeps (hput : ∀ o seg, P o → Q seg → P (o.put kcp.mtu.toNat seg.wire))
    (hempty : P ⟨[], []⟩) (hacks : ∀ a ∈ kcp.acklist, Q (kcp.controlSegment IKCP_CMD_ACK a)) :
    P kcp.flushAcks := by
  refine List.foldlRecOn kcp.acklist _ hempty ?_
  intro o ho a ha
  rw [controlSegment_wire]
  exact hput o _ ho (hacks a ha)

theorem flushCommands_keeps (hput : ∀ o seg, P o → Q seg → P (o.put kcp.mtu.toNat seg.wire))
    (hask : ∀ numbers, Q (kcp.controlSegment IKCP_CMD_WASK numbers))
    (htell : ∀ numbers, Q (kcp.controlSegment IKCP_CMD_WINS numbers)) (ho : P o) :
    P (kcp.flushCommands o) := by
  have hasked : P (if kcp.probe &&& IKCP_ASK_SEND ≠ 0 then
      o.put kcp.mtu.toNat (ikcp_encode_seg
        (kcp.controlSegment IKCP_CMD_WASK (kcp.acklist.getLast?.getD (0, 0)))) else o) := by
    split
    · rw [controlSegment_wire]
      exact hput o _ ho (hask _)
    · exact ho
  rw [flushCommands]
  split
  · rw [controlSegment_wire]
    exact hput _ _ hasked (htell _)
  · exact hasked

section
variable (resent rtomin : UInt32) (f : Flushing) (segment : IKCPSEG)

/-- What is sent again carries the same number and the same data. -/
theorem dueSegment_numbered {r : Flushing × IKCPSEG}
    (h : kcp.dueSegment resent rtomin f segment = some r) :
    r.2.numbered = segment.numbered ∧ r.1.out = f.out := by
  rw [dueSegment] at h
  split at h
  · cases h
    exact ⟨rfl, rfl⟩
  split at h
  · cases h
    exact ⟨rfl, rfl⟩
  split at h
  · cases h
    exact ⟨rfl, rfl⟩
  · cases h

theorem flushSegment_numbered :
    (kcp.flushSegment resent rtomin f segment).2.numbered = segment.numbered := by
  rw [flushSegment]
  split
  · rfl
  · rename_i r hdue
    exact (dueSegment_numbered resent rtomin f segment hdue).1

theorem flushSegments_numbered (segments : List IKCPSEG) :
    (kcp.flushSegments resent rtomin f segments).2.map IKCPSEG.numbered =
      segments.map IKCPSEG.numbered := by
  induction segments generalizing f with
  | nil => rfl
  | cons segment rest ih =>
    rw [flushSegments, List.map_cons, List.map_cons, flushSegment_numbered]
    exact congrArg _ (ih _)

variable {f segment}

theorem flushSegment_keeps (hput : ∀ o seg, P o → Q seg → P (o.put kcp.mtu.toNat seg.wire))
    (hsegment : ∀ s : IKCPSEG, s.numbered = segment.numbered → s.una = kcp.rcv_nxt → Q s)
    (ho : P f.out) : P (kcp.flushSegment resent rtomin f segment).1.out := by
  rw [flushSegment]
  split
  · exact ho
  · rename_i r hdue
    obtain ⟨hnumbered, hout⟩ := dueSegment_numbered resent rtomin f segment hdue
    dsimp only at hnumbered hout ⊢
    rw [hout]
    exact hput _ { r with ts := _, wnd := _, una := _ } ho (hsegment _ hnumbered rfl)

theorem flushSegments_keeps {segments : List IKCPSEG}
    (hput : ∀ o seg, P o → Q seg → P (o.put kcp.mtu.toNat seg.wire))
    (hsegments : ∀ segment ∈ segments, ∀ s : IKCPSEG, s.numbered = segment.numbered →
      s.una = kcp.rcv_nxt → Q s)
    (ho : P f.out) : P (kcp.flushSegments resent rtomin f segments).1.out := by
  induction segments generalizing f with
  | nil => exact ho
  | cons segment rest ih =>
    apply ih fun s hs => hsegments s (List.mem_cons_of_mem _ hs)
    exact flushSegment_keeps resent rtomin hput (hsegments segment List.mem_cons_self) ho

end

end

/-! ## 3. What the peer is told -/

variable {kcp : IKCPCB} {out inn : Transfer Fragment} {o : Output}

/-- Everything in the datagrams is true. -/
abbrev Truthful (kcp : IKCPCB) (out inn : Transfer Fragment) (o : Output) : Prop :=
  o.Holds (IKCPSEG.Honest kcp.conv out inn)

/-- A segment without data: only an acknowledgement tells more than `una`. -/
theorem controlSegment_honest (h : kcp.receiving.Stands inn) {cmd : UInt32} (hcmd : IsCommand cmd)
    (hpush : cmd ≠ IKCP_CMD_PUSH) {numbers : UInt32 × UInt32}
    (hack : cmd = IKCP_CMD_ACK → inn.Has numbers.1.toNat) :
    (kcp.controlSegment cmd numbers).Honest kcp.conv out inn where
  fits := ⟨hcmd, show (0 : UInt32).toNat < 256 by decide, show 0 < 2 ^ 31 by decide⟩
  conv_eq := rfl
  push := fun heq => absurd heq hpush
  una := h.next.le
  ack := hack

theorem flushAcks_truthful (h : kcp.receiving.Stands inn) :
    kcp.Truthful out inn kcp.flushAcks :=
  flushAcks_keeps (fun _ _ ho hseg => ho.put _ hseg) Output.empty_holds fun a ha =>
    controlSegment_honest h (.inr (.inl rfl)) (by decide)
      fun _ => h.owed a.1 (List.mem_map_of_mem ha)

theorem flushCommands_truthful (h : kcp.receiving.Stands inn) (ho : kcp.Truthful out inn o) :
    kcp.Truthful out inn (kcp.flushCommands o) :=
  flushCommands_keeps (fun _ _ ho hseg => ho.put _ hseg)
    (fun _ => controlSegment_honest h (.inr (.inr (.inl rfl))) (by decide)
      fun heq => absurd heq (by decide))
    (fun _ => controlSegment_honest h (.inr (.inr (.inr rfl))) (by decide)
      fun heq => absurd heq (by decide)) ho

/-- A segment of `snd_buf` is what has been sent with its number. -/
theorem sent_honest {s : IKCPSEG} (h : kcp.Stands out inn) (hfits : FitsAll out)
    (hs : s.numbered ∈ kcp.sending.buf) (huna : s.una = kcp.rcv_nxt) :
    s.Honest kcp.conv out inn := by
  obtain ⟨hconv, hcmd, hsent⟩ := h.sending.buf _ hs
  obtain ⟨hfrg, hlen⟩ := hfits _ (List.mem_append_left _ (List.mem_of_getElem? hsent))
  have hcmd' : s.cmd = IKCP_CMD_PUSH := hcmd
  have hfrg' : s.frg.toNat < 256 := Nat.lt_trans hfrg (by decide)
  refine ⟨⟨.inl hcmd, hfrg', hlen⟩, hconv, fun _ => hsent, ?_, ?_⟩
  · rw [huna]
    exact h.receiving.next.le
  · intro hack
    rw [hcmd'] at hack
    exact absurd hack (by decide)

theorem flushSegments_truthful {f : Flushing} (resent rtomin : UInt32) (h : kcp.Stands out inn)
    (hfits : FitsAll out) (ho : kcp.Truthful out inn f.out) :
    kcp.Truthful out inn (kcp.flushSegments resent rtomin f kcp.snd_buf).1.out :=
  flushSegments_keeps resent rtomin (fun _ _ ho hseg => ho.put _ hseg)
    (fun _ hseg _ hs huna => sent_honest h hfits (hs ▸ List.mem_map_of_mem hseg) huna) ho

theorem updateSsthresh_stands (h : kcp.Stands out inn) (resent cwnd : UInt32)
    (change lost : Bool) : (kcp.updateSsthresh resent cwnd change lost).Stands out inn := by
  unfold updateSsthresh
  extract_lets k₁ k₂
  have h₁ : k₁.Stands out inn := by
    unfold k₁
    split
    · exact h.congr rfl rfl
    · exact h
  have h₂ : k₂.Stands out inn := by
    unfold k₂
    split
    · exact h₁.congr rfl rfl
    · exact h₁
  split
  · exact h₂.congr rfl rfl
  · exact h₂

/-! ## 4. `ikcp_flush` -/

theorem setProbe_views (kcp : IKCPCB) (probe_wait ts_probe probe : UInt32) :
    (kcp.setProbe probe_wait ts_probe probe).sending = kcp.sending ∧
      (kcp.setProbe probe_wait ts_probe probe).receiving = kcp.receiving :=
  ⟨rfl, rfl⟩

theorem flushProbe_views (kcp : IKCPCB) : kcp.flushProbe.sending = kcp.sending ∧
    kcp.flushProbe.receiving = kcp.receiving := by
  rw [flushProbe]
  split
  · split
    · exact setProbe_views kcp _ _ _
    split
    · exact setProbe_views kcp _ _ _
    · exact ⟨rfl, rfl⟩
  · exact setProbe_views kcp _ _ _

theorem clearControl_stands (h : kcp.Stands out inn) : kcp.clearControl.Stands out inn where
  sending := h.sending
  receiving := {
    next := h.receiving.next
    ready := h.receiving.ready
    counted := h.receiving.counted
    buf := h.receiving.buf
    early := h.receiving.early
    owed := fun _ hsn => nomatch hsn }

theorem flushControl_stands (h : kcp.Stands out inn) : kcp.flushControl.1.Stands out inn ∧
    kcp.Truthful out inn kcp.flushControl.2 := by
  obtain ⟨hsending, hreceiving⟩ := flushProbe_views kcp
  have hconv : kcp.flushProbe.conv = kcp.conv :=
    congrArg Settings.conv (flushProbe_only kcp).settings
  have hprobe : kcp.flushProbe.Stands out inn := h.congr hsending hreceiving
  have hacks : kcp.flushProbe.Truthful out inn kcp.flushAcks := by
    rw [Truthful, hconv]
    exact flushAcks_truthful h.receiving
  have hcommands := flushCommands_truthful hprobe.receiving hacks
  rw [Truthful, hconv] at hcommands
  exact ⟨clearControl_stands hprobe, hcommands⟩

theorem flushData_stands (h : kcp.Stands out inn) (hfits : FitsAll out) (cwnd : UInt32)
    (ho : kcp.Truthful out inn o) : (kcp.flushData cwnd o).1.Stands out inn ∧
      ∀ d ∈ (kcp.flushData cwnd o).2, d ≠ [] ∧ IsDatagram (IKCPSEG.Honest kcp.conv out inn) d := by
  unfold flushData
  extract_lets resent rtomin r
  have hout := flushSegments_truthful (f := ⟨o, kcp.xmit, kcp.state, false, false⟩)
    resent rtomin h hfits ho
  have hflushed : (kcp.setFlushed r).Stands out inn := by
    refine h.congr ?_ rfl
    show Sending.mk _ _ _ (r.2.map IKCPSEG.numbered) = _
    rw [flushSegments_numbered]
    rfl
  exact ⟨updateSsthresh_stands hflushed _ _ _ _, hout.output.datagrams⟩

/-- Some numbers are given, and what is handed to `output` is true. -/
theorem ikcp_flush_stands (kcp : IKCPCB) (h : kcp.Stands out inn) (hfew : Few out) (hfits : FitsAll out) :
    ∃ out', Numbers out out' ∧ kcp.ikcp_flush.1.Stands out' inn ∧
      ∀ d ∈ kcp.ikcp_flush.2, d ≠ [] ∧ IsDatagram (IKCPSEG.Honest kcp.conv out' inn) d := by
  unfold ikcp_flush
  split
  · exact ⟨out, ⟨.refl, rfl⟩, h, fun _ hd => absurd hd List.not_mem_nil⟩
  extract_lets r cwnd
  obtain ⟨hcontrol, ho⟩ := flushControl_stands h
  obtain ⟨out', hnumbers, hsending⟩ := moveQueue_stands r.1 cwnd hcontrol.sending hfew
  have hreceiving := moveQueue_receiving cwnd r.1 r.1.snd_queue
  have hconv : (moveQueue cwnd r.1 r.1.snd_queue).conv = kcp.conv :=
    congrArg Settings.conv ((flushControl_only kcp).trans (moveQueue_only r.1 cwnd _)).settings
  have hmoved : (moveQueue cwnd r.1 r.1.snd_queue).Stands out' inn :=
    ⟨hsending, hreceiving ▸ hcontrol.receiving⟩
  have hprefix := hnumbers.1.frame.2.2.2
  have ho' : (moveQueue cwnd r.1 r.1.snd_queue).Truthful out' inn r.2 := by
    rw [Truthful, hconv]
    exact ho.mono fun seg hseg => hseg.mono hprefix (Nat.le_refl _) fun _ hi => hi
  obtain ⟨hdata, hdatagrams⟩ := flushData_stands hmoved (hnumbers.fitsAll hfits) cwnd ho'
  rw [hconv] at hdatagrams
  exact ⟨out', hnumbers, hdata, hdatagrams⟩

theorem ikcp_update_stands (h : kcp.Stands out inn) (hfew : Few out) (hfits : FitsAll out)
    (current : UInt32) :
    ∃ out', Numbers out out' ∧ (kcp.ikcp_update current).1.Stands out' inn ∧
      ∀ d ∈ (kcp.ikcp_update current).2,
        d ≠ [] ∧ IsDatagram (IKCPSEG.Honest kcp.conv out' inn) d := by
  have hcurrent : (kcp.setCurrent current).Stands out inn ∧
      (kcp.setCurrent current).conv = kcp.conv := by
    rw [setCurrent]
    split
    · exact ⟨h.congr rfl rfl, rfl⟩
    · exact ⟨h.congr rfl rfl, rfl⟩
  have hflush (ts_flush : UInt32) := ikcp_flush_stands
    ((kcp.setCurrent current).setFlushTime ts_flush) (hcurrent.1.congr rfl rfl) hfew hfits
  have hconv (ts_flush : UInt32) :
      ((kcp.setCurrent current).setFlushTime ts_flush).conv = kcp.conv := hcurrent.2
  simp only [hconv] at hflush
  rw [ikcp_update]
  split
  · exact hflush _
  split
  · exact hflush _
  · exact ⟨out, ⟨.refl, rfl⟩, hcurrent.1, fun _ hd => absurd hd List.not_mem_nil⟩

end IKCPCB

end LuaServer
