import LuaServer.Network.IkcpWire

/-!
# IkcpFrame — which fields a function of `ikcp.cpp` changes

A datagram changes the fields of the receiver or those that follow the acknowledgements, `ikcp_recv`
those of the receiver, and `ikcp_flush` those of the sender.
-/

open Reasoning

namespace LuaServer

/-- What data that arrive, and messages that are handed out, change. -/
structure RcvFields where
  rcv_nxt : UInt32
  nrcv_buf : UInt32
  nrcv_que : UInt32
  probe : UInt32
  rcv_queue : List IKCPSEG
  rcv_buf : List IKCPSEG
  acklist : List (UInt32 × UInt32)

/-- What acknowledgements change. -/
structure AckFields where
  snd_una : UInt32
  rx_rttval : Int
  rx_srtt : Int
  rx_rto : Int
  rmt_wnd : UInt32
  cwnd : UInt32
  incr : UInt32
  nsnd_buf : UInt32
  snd_buf : List IKCPSEG

/-- What `ikcp_flush` and `ikcp_update` change. -/
structure FlushFields where
  state : UInt32
  snd_nxt : UInt32
  ssthresh : UInt32
  cwnd : UInt32
  incr : UInt32
  probe : UInt32
  current : UInt32
  ts_flush : UInt32
  xmit : UInt32
  nsnd_buf : UInt32
  nsnd_que : UInt32
  updated : UInt32
  ts_probe : UInt32
  probe_wait : UInt32
  snd_queue : List IKCPSEG
  snd_buf : List IKCPSEG
  acklist : List (UInt32 × UInt32)

namespace IKCPCB

variable (kcp : IKCPCB)

def setRcv (r : RcvFields) : IKCPCB :=
  { kcp with
    rcv_nxt := r.rcv_nxt
    nrcv_buf := r.nrcv_buf
    nrcv_que := r.nrcv_que
    probe := r.probe
    rcv_queue := r.rcv_queue
    rcv_buf := r.rcv_buf
    acklist := r.acklist }

def rcvFields : RcvFields :=
  ⟨kcp.rcv_nxt, kcp.nrcv_buf, kcp.nrcv_que, kcp.probe, kcp.rcv_queue, kcp.rcv_buf, kcp.acklist⟩

def setAck (a : AckFields) : IKCPCB :=
  { kcp with
    snd_una := a.snd_una
    rx_rttval := a.rx_rttval
    rx_srtt := a.rx_srtt
    rx_rto := a.rx_rto
    rmt_wnd := a.rmt_wnd
    cwnd := a.cwnd
    incr := a.incr
    nsnd_buf := a.nsnd_buf
    snd_buf := a.snd_buf }

def ackFields : AckFields :=
  ⟨kcp.snd_una, kcp.rx_rttval, kcp.rx_srtt, kcp.rx_rto, kcp.rmt_wnd, kcp.cwnd, kcp.incr,
    kcp.nsnd_buf, kcp.snd_buf⟩

def setFlush (f : FlushFields) : IKCPCB :=
  { kcp with
    state := f.state
    snd_nxt := f.snd_nxt
    ssthresh := f.ssthresh
    cwnd := f.cwnd
    incr := f.incr
    probe := f.probe
    current := f.current
    ts_flush := f.ts_flush
    xmit := f.xmit
    nsnd_buf := f.nsnd_buf
    nsnd_que := f.nsnd_que
    updated := f.updated
    ts_probe := f.ts_probe
    probe_wait := f.probe_wait
    snd_queue := f.snd_queue
    snd_buf := f.snd_buf
    acklist := f.acklist }

def flushFields : FlushFields :=
  ⟨kcp.state, kcp.snd_nxt, kcp.ssthresh, kcp.cwnd, kcp.incr, kcp.probe, kcp.current, kcp.ts_flush,
    kcp.xmit, kcp.nsnd_buf, kcp.nsnd_que, kcp.updated, kcp.ts_probe, kcp.probe_wait,
    kcp.snd_queue, kcp.snd_buf, kcp.acklist⟩

/-- `kcp'` is `kcp` but for the fields of the receiver. -/
def RcvOnly (kcp kcp' : IKCPCB) : Prop := ∃ r, kcp' = kcp.setRcv r

/-- `kcp'` is `kcp` but for the fields that acknowledgements change. -/
def AckOnly (kcp kcp' : IKCPCB) : Prop := ∃ a, kcp' = kcp.setAck a

/-- `kcp'` is `kcp` but for the fields that `ikcp_flush` changes. -/
def FlushOnly (kcp kcp' : IKCPCB) : Prop := ∃ f, kcp' = kcp.setFlush f

/-- `kcp'` is `kcp` but for `snd_queue`. -/
def QueueOnly (kcp kcp' : IKCPCB) : Prop :=
  ∃ queue count, kcp' = { kcp with snd_queue := queue, nsnd_que := count }

/-- `kcp'` is `kcp` but for the fields that a datagram changes. -/
def InputOnly (kcp kcp' : IKCPCB) : Prop := ∃ r a, kcp' = (kcp.setRcv r).setAck a

variable {kcp} {kcp' kcp'' : IKCPCB}

theorem RcvOnly.refl (kcp : IKCPCB) : kcp.RcvOnly kcp := ⟨kcp.rcvFields, rfl⟩

theorem RcvOnly.trans (h : kcp.RcvOnly kcp') (h' : kcp'.RcvOnly kcp'') : kcp.RcvOnly kcp'' := by
  obtain ⟨r, rfl⟩ := h
  obtain ⟨r', rfl⟩ := h'
  exact ⟨r', rfl⟩

theorem AckOnly.refl (kcp : IKCPCB) : kcp.AckOnly kcp := ⟨kcp.ackFields, rfl⟩

theorem AckOnly.trans (h : kcp.AckOnly kcp') (h' : kcp'.AckOnly kcp'') : kcp.AckOnly kcp'' := by
  obtain ⟨a, rfl⟩ := h
  obtain ⟨a', rfl⟩ := h'
  exact ⟨a', rfl⟩

theorem FlushOnly.refl (kcp : IKCPCB) : kcp.FlushOnly kcp := ⟨kcp.flushFields, rfl⟩

theorem FlushOnly.trans (h : kcp.FlushOnly kcp') (h' : kcp'.FlushOnly kcp'') :
    kcp.FlushOnly kcp'' := by
  obtain ⟨f, rfl⟩ := h
  obtain ⟨f', rfl⟩ := h'
  exact ⟨f', rfl⟩

theorem RcvOnly.input (h : kcp.RcvOnly kcp') : kcp.InputOnly kcp' := by
  obtain ⟨r, rfl⟩ := h
  exact ⟨r, kcp.ackFields, rfl⟩

theorem AckOnly.input (h : kcp.AckOnly kcp') : kcp.InputOnly kcp' := by
  obtain ⟨a, rfl⟩ := h
  exact ⟨kcp.rcvFields, a, rfl⟩

theorem InputOnly.trans (h : kcp.InputOnly kcp') (h' : kcp'.InputOnly kcp'') :
    kcp.InputOnly kcp'' := by
  obtain ⟨r, a, rfl⟩ := h
  obtain ⟨r', a', rfl⟩ := h'
  exact ⟨r', a', rfl⟩

variable (kcp)

/-! ## 1. Data -/

theorem moveAvailable_only (buf : List IKCPSEG) : kcp.RcvOnly (kcp.moveAvailable buf) := by
  induction buf generalizing kcp with
  | nil => exact ⟨{ kcp.rcvFields with rcv_buf := [] }, rfl⟩
  | cons seg rest ih =>
    rw [moveAvailable]
    split
    · refine RcvOnly.trans ?_ (ih _)
      exact ⟨⟨_, _, _, _, _, _, _⟩, rfl⟩
    · exact ⟨{ kcp.rcvFields with rcv_buf := seg :: rest }, rfl⟩

theorem ikcp_parse_data_only (seg : IKCPSEG) : kcp.RcvOnly (kcp.ikcp_parse_data seg) := by
  rw [ikcp_parse_data]
  split
  · exact .refl kcp
  split
  · refine RcvOnly.trans ?_ (moveAvailable_only _ _)
    exact ⟨{ kcp.rcvFields with nrcv_buf := kcp.nrcv_buf + 1 }, rfl⟩
  · exact moveAvailable_only kcp _

theorem inputPush_only (seg : IKCPSEG) : kcp.RcvOnly (kcp.inputPush seg) := by
  have hpush : kcp.RcvOnly (kcp.ikcp_ack_push seg.sn seg.ts) :=
    ⟨{ kcp.rcvFields with acklist := kcp.acklist ++ [(seg.sn, seg.ts)] }, rfl⟩
  rw [inputPush]
  split
  · split
    · exact hpush.trans (ikcp_parse_data_only _ seg)
    · exact hpush
  · exact .refl kcp

/-! ## 2. Acknowledgements -/

theorem ikcp_shrink_buf_only : kcp.AckOnly kcp.ikcp_shrink_buf := by
  rw [ikcp_shrink_buf]
  split
  · exact ⟨{ kcp.ackFields with snd_una := _ }, rfl⟩
  · exact ⟨{ kcp.ackFields with snd_una := kcp.snd_nxt }, rfl⟩

theorem setSndBuf_only (buf : List IKCPSEG) : kcp.AckOnly (kcp.setSndBuf buf) :=
  ⟨{ kcp.ackFields with nsnd_buf := _, snd_buf := buf }, rfl⟩

theorem ikcp_parse_ack_only (sn : UInt32) : kcp.AckOnly (kcp.ikcp_parse_ack sn) := by
  rw [ikcp_parse_ack]
  split
  · exact .refl kcp
  · exact setSndBuf_only kcp _

theorem setRto_only (rx_rttval rx_srtt rx_rto : Int) :
    kcp.AckOnly (kcp.setRto rx_rttval rx_srtt rx_rto) :=
  ⟨{ kcp.ackFields with rx_rttval := rx_rttval, rx_srtt := rx_srtt, rx_rto := rx_rto }, rfl⟩

theorem inputHead_only (seg : IKCPSEG) : kcp.AckOnly (kcp.inputHead seg) := by
  refine AckOnly.trans ?_ (ikcp_shrink_buf_only _)
  exact ⟨{ kcp.ackFields with rmt_wnd := seg.wnd, nsnd_buf := _, snd_buf := _ }, rfl⟩

theorem ikcp_update_ack_only (rtt : Int) : kcp.AckOnly (kcp.ikcp_update_ack rtt) := by
  unfold ikcp_update_ack
  exact setRto_only kcp _ _ _

theorem inputAck_only (seg : IKCPSEG) : kcp.AckOnly (kcp.inputAck seg) := by
  unfold inputAck
  extract_lets rtt k
  have hrtt : kcp.AckOnly k := by
    unfold k
    split
    · exact ikcp_update_ack_only kcp rtt
    · exact .refl kcp
  exact (hrtt.trans (ikcp_parse_ack_only k _)).trans (ikcp_shrink_buf_only _)

theorem ikcp_parse_fastack_only (sn : UInt32) : kcp.AckOnly (kcp.ikcp_parse_fastack sn) := by
  rw [ikcp_parse_fastack]
  split
  · exact .refl kcp
  · exact ⟨{ kcp.ackFields with snd_buf := _ }, rfl⟩

theorem growCwnd_only (prev_una : UInt32) : kcp.AckOnly (kcp.growCwnd prev_una) := by
  rw [growCwnd]
  split
  · exact ⟨{ kcp.ackFields with cwnd := _, incr := _ }, rfl⟩
  · exact .refl kcp

theorem afterLoop_only (flag : MaxAck) (prev_una : UInt32) :
    kcp.AckOnly (kcp.afterLoop flag prev_una) := by
  cases flag with
  | none => exact growCwnd_only kcp prev_una
  | some maxack => exact (ikcp_parse_fastack_only kcp maxack).trans (growCwnd_only _ prev_una)

theorem inputCommand_only (flag : MaxAck) (seg : IKCPSEG) :
    kcp.InputOnly (kcp.inputCommand flag seg).1 := by
  rw [inputCommand]
  split
  · dsimp only
    exact (inputAck_only kcp seg).input
  split
  · dsimp only
    exact (inputPush_only kcp seg).input
  split
  · exact RcvOnly.input ⟨⟨_, _, _, _, _, _, _⟩, rfl⟩
  · exact (RcvOnly.refl kcp).input

theorem inputSegment_only (flag : MaxAck) (seg : IKCPSEG) :
    kcp.InputOnly (kcp.inputSegment flag seg).1 :=
  (inputHead_only kcp seg).input.trans (inputCommand_only _ flag seg)

variable {kcp}

/-- What every segment keeps, the loop of `ikcp_input` keeps on any bytes. -/
theorem inputLoop_keeps {P : IKCPCB → Prop}
    (hsegment : ∀ kcp flag seg, P kcp → P (kcp.inputSegment flag seg).1) (h : P kcp)
    (turns : Nat) (flag : MaxAck) (data : List UInt8) : P (inputLoop turns kcp flag data).1 := by
  induction turns generalizing kcp flag data with
  | zero => exact h
  | succ turns ih =>
    rw [inputLoop]
    split
    · exact h
    extract_lets seg len r
    split
    · exact h
    split
    · exact h
    split
    · exact h
    · exact ih (hsegment kcp flag seg h) r.2 _

theorem ikcp_input_keeps {P : IKCPCB → Prop}
    (hsegment : ∀ kcp flag seg, P kcp → P (kcp.inputSegment flag seg).1)
    (hafter : ∀ kcp flag prev_una, P kcp → P (kcp.afterLoop flag prev_una)) (h : P kcp)
    (data : List UInt8) : P (kcp.ikcp_input data).1 := by
  have hloop := inputLoop_keeps hsegment h data.length none data
  rw [ikcp_input]
  split
  · exact h
  split
  · rename_i t code heq
    rw [heq] at hloop
    exact hloop
  · rename_i t flag heq
    rw [heq] at hloop
    exact hafter t flag kcp.snd_una hloop

variable (kcp)

/-- Input of any bytes. -/
theorem ikcp_input_only (data : List UInt8) : kcp.InputOnly (kcp.ikcp_input data).1 :=
  ikcp_input_keeps (P := kcp.InputOnly) (fun k flag seg h => h.trans (inputSegment_only k flag seg))
    (fun k flag prev_una h => h.trans (afterLoop_only k flag prev_una).input)
    (RcvOnly.refl kcp).input data

/-! ## 3. `ikcp_recv` -/

theorem afterRecv_only (full : Bool) : kcp.RcvOnly (kcp.afterRecv full) := by
  rw [afterRecv]
  refine (moveAvailable_only kcp kcp.rcv_buf).trans ?_
  rw [fastRecover]
  split
  · exact ⟨⟨_, _, _, _, _, _, _⟩, rfl⟩
  · exact .refl _

theorem takeMessage_only : kcp.RcvOnly kcp.takeMessage :=
  ⟨{ kcp.rcvFields with nrcv_que := _, rcv_queue := _ }, rfl⟩

theorem ikcp_recv_only (len : Int) : kcp.RcvOnly (kcp.ikcp_recv len).1 := by
  by_cases hempty : kcp.rcv_queue = []
  · rw [ikcp_recv, if_pos hempty]
    exact .refl kcp
  by_cases hsize : kcp.ikcp_peeksize < 0
  · rw [ikcp_recv, if_neg hempty, if_pos hsize]
    exact .refl kcp
  by_cases hlen : (if len < 0 then -len else len) < kcp.ikcp_peeksize
  · rw [ikcp_recv, if_neg hempty, if_neg hsize, if_pos hlen]
    exact .refl kcp
  · rw [ikcp_recv, if_neg hempty, if_neg hsize, if_neg hlen]
    dsimp only
    split
    · exact afterRecv_only kcp _
    · exact (takeMessage_only kcp).trans (afterRecv_only _ _)

theorem sendFragments_only (buffer : List UInt8) : kcp.QueueOnly (kcp.sendFragments buffer).1 := by
  unfold sendFragments
  extract_lets count count'
  split
  · exact ⟨kcp.snd_queue, kcp.nsnd_que, rfl⟩
  · exact ⟨_, _, rfl⟩

theorem ikcp_send_only (buffer : List UInt8) : kcp.QueueOnly (kcp.ikcp_send buffer).1 := by
  have hlast : kcp.QueueOnly (kcp.extendLast buffer).1 := by
    rw [extendLast]
    split
    · exact ⟨kcp.snd_queue, kcp.nsnd_que, rfl⟩
    · split
      · exact ⟨_, kcp.nsnd_que, rfl⟩
      · exact ⟨kcp.snd_queue, kcp.nsnd_que, rfl⟩
  unfold ikcp_send
  split
  · extract_lets r
    split
    · exact hlast
    · obtain ⟨queue, count, hr⟩ := hlast
      obtain ⟨queue', count', hr'⟩ := sendFragments_only r.1 r.2
      refine ⟨queue', count', hr'.trans ?_⟩
      rw [show r.1 = _ from hr]
  · exact sendFragments_only kcp buffer

/-! ## 4. `ikcp_flush` -/

theorem setCwnd_flushOnly (w : UInt32 × UInt32) : kcp.FlushOnly (kcp.setCwnd w) :=
  ⟨{ kcp.flushFields with cwnd := w.1, incr := w.2 }, rfl⟩

theorem flushProbe_only : kcp.FlushOnly kcp.flushProbe := by
  have hset (probe_wait ts_probe probe : UInt32) :
      kcp.FlushOnly (kcp.setProbe probe_wait ts_probe probe) :=
    ⟨{ kcp.flushFields with probe_wait := probe_wait, ts_probe := ts_probe, probe := probe }, rfl⟩
  rw [flushProbe]
  split
  · split
    · exact hset _ _ _
    split
    · exact hset _ _ _
    · exact .refl kcp
  · exact hset _ _ _

theorem flushControl_only : kcp.FlushOnly kcp.flushControl.1 := by
  refine (flushProbe_only kcp).trans ?_
  exact ⟨{ kcp.flushProbe.flushFields with acklist := [], probe := 0 }, rfl⟩

theorem moveQueue_only (cwnd : UInt32) (queue : List IKCPSEG) :
    kcp.FlushOnly (moveQueue cwnd kcp queue) := by
  induction queue generalizing kcp with
  | nil => exact ⟨{ kcp.flushFields with snd_queue := [] }, rfl⟩
  | cons seg rest ih =>
    rw [moveQueue]
    split
    · refine FlushOnly.trans ?_ (ih _)
      exact ⟨⟨_, _, _, _, _, _, _, _, _, _, _, _, _, _, _, _, _⟩, rfl⟩
    · exact ⟨{ kcp.flushFields with snd_queue := seg :: rest }, rfl⟩

theorem updateSsthresh_only (resent cwnd : UInt32) (change lost : Bool) :
    kcp.FlushOnly (kcp.updateSsthresh resent cwnd change lost) := by
  unfold updateSsthresh
  extract_lets k₁ k₂
  have h₁ : kcp.FlushOnly k₁ := by
    unfold k₁
    split
    · exact ⟨{ kcp.flushFields with ssthresh := _, cwnd := _, incr := _ }, rfl⟩
    · exact .refl kcp
  have h₂ : k₁.FlushOnly k₂ := by
    unfold k₂
    split
    · exact ⟨{ k₁.flushFields with ssthresh := _, cwnd := _, incr := _ }, rfl⟩
    · exact .refl k₁
  refine (h₁.trans h₂).trans ?_
  split
  · exact setCwnd_flushOnly k₂ _
  · exact .refl k₂

theorem setFlushed_only (r : Flushing × List IKCPSEG) : kcp.FlushOnly (kcp.setFlushed r) :=
  ⟨{ kcp.flushFields with snd_buf := r.2, xmit := r.1.xmit, state := r.1.state }, rfl⟩

theorem flushData_only (cwnd : UInt32) (o : Output) : kcp.FlushOnly (kcp.flushData cwnd o).1 := by
  unfold flushData
  extract_lets resent rtomin r
  exact (setFlushed_only kcp r).trans (updateSsthresh_only _ _ _ _ _)

theorem ikcp_flush_only : kcp.FlushOnly kcp.ikcp_flush.1 := by
  unfold ikcp_flush
  split
  · exact .refl kcp
  extract_lets r cwnd
  exact ((flushControl_only kcp).trans (moveQueue_only r.1 _ _)).trans (flushData_only _ _ _)

theorem setCurrent_only (current : UInt32) : kcp.FlushOnly (kcp.setCurrent current) := by
  rw [setCurrent]
  split
  · exact ⟨{ kcp.flushFields with current := current, updated := 1, ts_flush := current }, rfl⟩
  · exact ⟨{ kcp.flushFields with current := current }, rfl⟩

theorem setFlushTime_only (ts_flush : UInt32) : kcp.FlushOnly (kcp.setFlushTime ts_flush) :=
  ⟨{ kcp.flushFields with ts_flush := ts_flush }, rfl⟩

theorem ikcp_update_only (current : UInt32) : kcp.FlushOnly (kcp.ikcp_update current).1 := by
  have hflush (ts_flush : UInt32) :
      kcp.FlushOnly ((kcp.setCurrent current).setFlushTime ts_flush).ikcp_flush.1 :=
    ((setCurrent_only kcp current).trans (setFlushTime_only _ ts_flush)).trans (ikcp_flush_only _)
  rw [ikcp_update]
  split
  · exact hflush _
  split
  · exact hflush _
  · exact setCurrent_only kcp current

end IKCPCB

/-! ## 5. Options -/

/-- What only the options change. -/
structure Settings where
  conv : UInt32
  mtu : UInt32
  mss : UInt32
  snd_wnd : UInt32
  rcv_wnd : UInt32
  stream : Int
deriving DecidableEq

namespace IKCPCB

def settings (kcp : IKCPCB) : Settings :=
  ⟨kcp.conv, kcp.mtu, kcp.mss, kcp.snd_wnd, kcp.rcv_wnd, kcp.stream⟩

variable {kcp kcp' : IKCPCB}

theorem InputOnly.settings (h : kcp.InputOnly kcp') : kcp'.settings = kcp.settings := by
  obtain ⟨r, a, rfl⟩ := h
  rfl

theorem RcvOnly.settings (h : kcp.RcvOnly kcp') : kcp'.settings = kcp.settings :=
  h.input.settings

theorem FlushOnly.settings (h : kcp.FlushOnly kcp') : kcp'.settings = kcp.settings := by
  obtain ⟨f, rfl⟩ := h
  rfl

end IKCPCB

end LuaServer
