import LuaServer.Network.IkcpBlock
import LuaServer.Reasoning.Bytes

/-!
# IkcpWire — segments in datagrams

`ikcp_input` takes a datagram apart, `ikcp_flush` hands datagrams of at most `mtu` bytes to `output`.
A datagram is a sequence of segments, each with a head of 24 bytes.
-/

open Reasoning

namespace LuaServer

/-! ## 1. The head of a segment -/

/-- The integers are little-endian. -/
def ikcp_encode_seg (seg : IKCPSEG) : List UInt8 :=
  leBytes 4 seg.conv.toNat ++ leBytes 1 seg.cmd.toNat ++ leBytes 1 seg.frg.toNat ++
    leBytes 2 seg.wnd.toNat ++ leBytes 4 seg.ts.toNat ++ leBytes 4 seg.sn.toNat ++
    leBytes 4 seg.una.toNat ++ leBytes 4 seg.data.length

/-- A number of `width` bytes at `pos`. -/
def decodeAt (data : List UInt8) (pos width : Nat) : UInt32 :=
  UInt32.ofNat (leNat ((data.drop pos).take width))

/-- The head at the front of `data`, and the data behind it. -/
def decodeSegment (data : List UInt8) : IKCPSEG where
  conv := decodeAt data 0 4
  cmd := decodeAt data 4 1
  frg := decodeAt data 5 1
  wnd := decodeAt data 6 2
  ts := decodeAt data 8 4
  sn := decodeAt data 12 4
  una := decodeAt data 16 4
  resendts := 0
  rto := 0
  fastack := 0
  xmit := 0
  data := (data.drop 24).take (decodeAt data 20 4).toNat

namespace IKCPCB

/-! ## 2. `ikcp_input` -/

/-- What `ikcp_input` keeps of the acknowledgements in a datagram: `maxack`, while `flag` is set. -/
abbrev MaxAck := Option UInt32

def maxAck (flag : MaxAck) (sn : UInt32) : UInt32 :=
  match flag with
  | none => sn
  | some maxack => if 0 < _itimediff sn maxack then sn else maxack

def inputAck (kcp : IKCPCB) (seg : IKCPSEG) : IKCPCB :=
  let rtt := _itimediff kcp.current seg.ts
  let kcp := if 0 ≤ rtt then kcp.ikcp_update_ack rtt else kcp
  (kcp.ikcp_parse_ack seg.sn).ikcp_shrink_buf

def inputPush (kcp : IKCPCB) (seg : IKCPSEG) : IKCPCB :=
  if _itimediff seg.sn (kcp.rcv_nxt + kcp.rcv_wnd) < 0 then
    if 0 ≤ _itimediff seg.sn kcp.rcv_nxt then (kcp.ikcp_ack_push seg.sn seg.ts).ikcp_parse_data seg
    else kcp.ikcp_ack_push seg.sn seg.ts
  else kcp

/-- What every segment tells: the window of the peer, and what the peer has received. -/
def inputHead (kcp : IKCPCB) (seg : IKCPSEG) : IKCPCB :=
  ({ kcp with rmt_wnd := seg.wnd }.ikcp_parse_una seg.una).ikcp_shrink_buf

def inputCommand (kcp : IKCPCB) (flag : MaxAck) (seg : IKCPSEG) : IKCPCB × MaxAck :=
  if seg.cmd = IKCP_CMD_ACK then (kcp.inputAck seg, some (maxAck flag seg.sn))
  else if seg.cmd = IKCP_CMD_PUSH then (kcp.inputPush seg, flag)
  else if seg.cmd = IKCP_CMD_WASK then ({ kcp with probe := kcp.probe ||| IKCP_ASK_TELL }, flag)
  else (kcp, flag)

/-- One turn, for a segment that has passed the tests. -/
def inputSegment (kcp : IKCPCB) (flag : MaxAck) (seg : IKCPSEG) : IKCPCB × MaxAck :=
  (kcp.inputHead seg).inputCommand flag seg

def IsCommand (cmd : UInt32) : Prop :=
  cmd = IKCP_CMD_PUSH ∨ cmd = IKCP_CMD_ACK ∨ cmd = IKCP_CMD_WASK ∨ cmd = IKCP_CMD_WINS

instance (cmd : UInt32) : Decidable (IsCommand cmd) := inferInstanceAs (Decidable (_ ∨ _))

/-- The loop.  An error is the value that is returned from within; there are at most as many turns as
`data` has bytes. -/
def inputLoop : Nat → IKCPCB → MaxAck → List UInt8 → IKCPCB × Except Int MaxAck
  | 0, kcp, flag, _ => (kcp, .ok flag)
  | turns + 1, kcp, flag, data =>
    if data.length < IKCP_OVERHEAD.toNat then (kcp, .ok flag)
    else
      let seg := decodeSegment data
      let len := (decodeAt data 20 4).toNat
      if seg.conv ≠ kcp.conv then (kcp, .error (-1))
      else if data.length - IKCP_OVERHEAD.toNat < len ∨ toInt32 len < 0 then (kcp, .error (-2))
      else if ¬ IsCommand seg.cmd then (kcp, .error (-3))
      else
        let r := kcp.inputSegment flag seg
        inputLoop turns r.1 r.2 (data.drop (IKCP_OVERHEAD.toNat + len))

/-- `cwnd` and `incr` one turn on, in slow start or in congestion avoidance. -/
def nextCwnd (kcp : IKCPCB) : UInt32 × UInt32 :=
  if kcp.cwnd < kcp.ssthresh then (kcp.cwnd + 1, kcp.incr + kcp.mss)
  else
    let incr := if kcp.incr < kcp.mss then kcp.mss else kcp.incr
    let incr := incr + ((kcp.mss * kcp.mss) / incr + kcp.mss / 16)
    (if (kcp.cwnd + 1) * kcp.mss ≤ incr then kcp.cwnd + 1 else kcp.cwnd, incr)

def setCwnd (kcp : IKCPCB) (w : UInt32 × UInt32) : IKCPCB :=
  { kcp with cwnd := w.1, incr := w.2 }

/-- The congestion window after new acknowledgements. -/
def growCwnd (kcp : IKCPCB) (prev_una : UInt32) : IKCPCB :=
  if 0 < _itimediff kcp.snd_una prev_una ∧ kcp.cwnd < kcp.rmt_wnd then
    kcp.setCwnd (if kcp.rmt_wnd < kcp.nextCwnd.1 then (kcp.rmt_wnd, kcp.rmt_wnd * kcp.mss)
      else kcp.nextCwnd)
  else kcp

/-- `ikcp_input` behind the loop. -/
def afterLoop (kcp : IKCPCB) (flag : MaxAck) (prev_una : UInt32) : IKCPCB :=
  match flag with
  | some maxack => (kcp.ikcp_parse_fastack maxack).growCwnd prev_una
  | none => kcp.growCwnd prev_una

def ikcp_input (kcp : IKCPCB) (data : List UInt8) : IKCPCB × Int :=
  if data.length < IKCP_OVERHEAD.toNat then (kcp, -1)
  else
    match inputLoop data.length kcp none data with
    | (t, .error code) => (t, code)
    | (t, .ok flag) => (t.afterLoop flag kcp.snd_una, 0)

/-! ## 3. `ikcp_flush` -/

/-- The datagrams handed to `output`, and what has been put into `buffer` since.  All that `buffer`
ever holds is handed to `output` in the end, or the beginning of it: whether it keeps to its size is
seen from the datagrams. -/
structure Output where
  datagrams : List (List UInt8)
  buffer : List UInt8
deriving DecidableEq

namespace Output

/-- `ikcp_output(kcp, buffer, size)` and `ptr = buffer`. -/
def output (o : Output) : Output :=
  if o.buffer = [] then o else ⟨o.datagrams ++ [o.buffer], []⟩

/-- Bytes that have to be in one datagram. -/
def put (o : Output) (mtu : Nat) (bytes : List UInt8) : Output :=
  let o := if mtu < o.buffer.length + bytes.length then o.output else o
  { o with buffer := o.buffer ++ bytes }

end Output

def ikcp_wnd_unused (kcp : IKCPCB) : UInt32 :=
  if kcp.nrcv_que < kcp.rcv_wnd then kcp.rcv_wnd - kcp.nrcv_que else 0

/-- `seg`, with the command and the numbers that it has in turn. -/
def controlSegment (kcp : IKCPCB) (cmd : UInt32) (numbers : UInt32 × UInt32) : IKCPSEG :=
  { IKCPSEG.unnumbered 0 [] with
    conv := kcp.conv
    cmd := cmd
    wnd := kcp.ikcp_wnd_unused
    una := kcp.rcv_nxt
    sn := numbers.1
    ts := numbers.2 }

def flushAcks (kcp : IKCPCB) : Output :=
  kcp.acklist.foldl (fun o numbers => o.put kcp.mtu.toNat
    (ikcp_encode_seg (kcp.controlSegment IKCP_CMD_ACK numbers))) ⟨[], []⟩

def nextProbeWait (probe_wait : UInt32) : UInt32 :=
  let wait := if probe_wait < IKCP_PROBE_INIT then IKCP_PROBE_INIT else probe_wait
  let wait := wait + wait / 2
  if IKCP_PROBE_LIMIT < wait then IKCP_PROBE_LIMIT else wait

def setProbe (kcp : IKCPCB) (probe_wait ts_probe probe : UInt32) : IKCPCB :=
  { kcp with probe_wait := probe_wait, ts_probe := ts_probe, probe := probe }

/-- When to ask for the window of the peer, if it is 0. -/
def flushProbe (kcp : IKCPCB) : IKCPCB :=
  if kcp.rmt_wnd = 0 then
    if kcp.probe_wait = 0 then
      kcp.setProbe IKCP_PROBE_INIT (kcp.current + IKCP_PROBE_INIT) kcp.probe
    else if 0 ≤ _itimediff kcp.current kcp.ts_probe then
      kcp.setProbe (nextProbeWait kcp.probe_wait)
        (kcp.current + nextProbeWait kcp.probe_wait) (kcp.probe ||| IKCP_ASK_SEND)
    else kcp
  else kcp.setProbe 0 0 kcp.probe

/-- `IKCP_CMD_WASK` and `IKCP_CMD_WINS`, as `probe` asks for them. -/
def flushCommands (kcp : IKCPCB) (o : Output) : Output :=
  let numbers := kcp.acklist.getLast?.getD (0, 0)
  let o := if kcp.probe &&& IKCP_ASK_SEND ≠ 0 then
      o.put kcp.mtu.toNat (ikcp_encode_seg (kcp.controlSegment IKCP_CMD_WASK numbers))
    else o
  if kcp.probe &&& IKCP_ASK_TELL ≠ 0 then
    o.put kcp.mtu.toNat (ikcp_encode_seg (kcp.controlSegment IKCP_CMD_WINS numbers))
  else o

def sendWindow (kcp : IKCPCB) : UInt32 :=
  let cwnd := _imin_ kcp.snd_wnd kcp.rmt_wnd
  if kcp.nocwnd = 0 then _imin_ kcp.cwnd cwnd else cwnd

/-- The segment at the front of `snd_queue` with its number. -/
def numberSegment (kcp : IKCPCB) (seg : IKCPSEG) : IKCPSEG :=
  { seg with
    conv := kcp.conv
    cmd := IKCP_CMD_PUSH
    wnd := kcp.ikcp_wnd_unused
    ts := kcp.current
    sn := kcp.snd_nxt
    una := kcp.rcv_nxt
    resendts := kcp.current
    rto := UInt32.ofInt kcp.rx_rto
    fastack := 0
    xmit := 0 }

/-- The loop from `snd_queue`, here with its segments, to `snd_buf`. -/
def moveQueue (cwnd : UInt32) (kcp : IKCPCB) : List IKCPSEG → IKCPCB
  | [] => { kcp with snd_queue := [] }
  | seg :: rest =>
    if _itimediff kcp.snd_nxt (kcp.snd_una + cwnd) < 0 then
      moveQueue cwnd
        { kcp with
          snd_buf := kcp.snd_buf ++ [kcp.numberSegment seg]
          nsnd_que := kcp.nsnd_que - 1
          nsnd_buf := kcp.nsnd_buf + 1
          snd_nxt := kcp.snd_nxt + 1 } rest
    else { kcp with snd_queue := seg :: rest }

/-- What the loop over `snd_buf` changes besides the segments. -/
structure Flushing where
  out : Output
  xmit : UInt32
  state : UInt32
  change : Bool
  lost : Bool
deriving DecidableEq

section
variable (kcp : IKCPCB) (resent rtomin : UInt32)

/-- Whether a segment is due, first, again or because later ones have been acknowledged; and what
becomes of it then. -/
def dueSegment (f : Flushing) (segment : IKCPSEG) : Option (Flushing × IKCPSEG) :=
  if segment.xmit = 0 then
    let rto := UInt32.ofInt kcp.rx_rto
    some (f, { segment with xmit := 1, rto := rto, resendts := kcp.current + rto + rtomin })
  else if 0 ≤ _itimediff kcp.current segment.resendts then
    let rto := segment.rto + UInt32.ofInt
      (if kcp.nodelay = 0 then kcp.rx_rto else kcp.rx_rto.tdiv 2)
    some ({ f with xmit := f.xmit + 1, lost := true },
      { segment with xmit := segment.xmit + 1, rto := rto, resendts := kcp.current + rto })
  else if resent ≤ segment.fastack ∧
      (toInt32 segment.xmit.toNat ≤ kcp.fastlimit ∨ kcp.fastlimit ≤ 0) then
    some ({ f with change := true },
      { segment with
        xmit := segment.xmit + 1
        fastack := 0
        resendts := kcp.current + segment.rto })
  else none

def flushSegment (f : Flushing) (segment : IKCPSEG) : Flushing × IKCPSEG :=
  match kcp.dueSegment resent rtomin f segment with
  | none => (f, segment)
  | some (f, segment) =>
    let segment := { segment with
      ts := kcp.current
      wnd := kcp.ikcp_wnd_unused
      una := kcp.rcv_nxt }
    ({ f with
      out := f.out.put kcp.mtu.toNat (ikcp_encode_seg segment ++ segment.data)
      state := if kcp.dead_link ≤ segment.xmit then 0xffffffff else f.state }, segment)

def flushSegments : Flushing → List IKCPSEG → Flushing × List IKCPSEG
  | f, [] => (f, [])
  | f, segment :: rest =>
    let r := kcp.flushSegment resent rtomin f segment
    let t := flushSegments r.1 rest
    (t.1, r.2 :: t.2)

end

/-- After a fast retransmission. -/
def afterChange (kcp : IKCPCB) (resent : UInt32) : IKCPCB :=
  let ssthresh := _imax_ ((kcp.snd_nxt - kcp.snd_una) / 2) IKCP_THRESH_MIN
  { kcp with ssthresh := ssthresh }.setCwnd (ssthresh + resent, (ssthresh + resent) * kcp.mss)

/-- After a retransmission that was due. -/
def afterLoss (kcp : IKCPCB) (cwnd : UInt32) : IKCPCB :=
  { kcp with ssthresh := _imax_ (cwnd / 2) IKCP_THRESH_MIN }.setCwnd (1, kcp.mss)

/-- `ssthresh` and `cwnd` after retransmissions. -/
def updateSsthresh (kcp : IKCPCB) (resent cwnd : UInt32) (change lost : Bool) : IKCPCB :=
  let kcp := if change then kcp.afterChange resent else kcp
  let kcp := if lost then kcp.afterLoss cwnd else kcp
  if kcp.cwnd < 1 then kcp.setCwnd (1, kcp.mss) else kcp

/-- The acknowledgements and the commands have been put into datagrams. -/
def clearControl (kcp : IKCPCB) : IKCPCB := { kcp with acklist := [], probe := 0 }

/-- `ikcp_flush` up to the data: the acknowledgements and the commands. -/
def flushControl (kcp : IKCPCB) : IKCPCB × Output :=
  (kcp.flushProbe.clearControl, kcp.flushProbe.flushCommands kcp.flushAcks)

def setFlushed (kcp : IKCPCB) (r : Flushing × List IKCPSEG) : IKCPCB :=
  { kcp with snd_buf := r.2, xmit := r.1.xmit, state := r.1.state }

/-- `ikcp_flush` from the loop over `snd_buf` on. -/
def flushData (kcp : IKCPCB) (cwnd : UInt32) (out : Output) : IKCPCB × List (List UInt8) :=
  let resent := if 0 < kcp.fastresend then UInt32.ofInt kcp.fastresend else 0xffffffff
  let rtomin := if kcp.nodelay = 0 then UInt32.ofInt (kcp.rx_rto / 8) else 0
  let r := kcp.flushSegments resent rtomin ⟨out, kcp.xmit, kcp.state, false, false⟩ kcp.snd_buf
  ((kcp.setFlushed r).updateSsthresh resent cwnd r.1.change r.1.lost, r.1.out.output.datagrams)

/-- With the datagrams handed to `output`. -/
def ikcp_flush (kcp : IKCPCB) : IKCPCB × List (List UInt8) :=
  if kcp.updated = 0 then (kcp, [])
  else
    let r := kcp.flushControl
    let cwnd := r.1.sendWindow
    (moveQueue cwnd r.1 r.1.snd_queue).flushData cwnd r.2

/-- The clock of `kcp` is set, for the first time as well `ts_flush`. -/
def setCurrent (kcp : IKCPCB) (current : UInt32) : IKCPCB :=
  if kcp.updated = 0 then { kcp with current := current, updated := 1, ts_flush := current }
  else { kcp with current := current }

def setFlushTime (kcp : IKCPCB) (ts_flush : UInt32) : IKCPCB := { kcp with ts_flush := ts_flush }

/-- The time of the flush after the one that was to be at `ts_flush`. -/
def nextFlush (kcp : IKCPCB) (ts_flush current : UInt32) : UInt32 :=
  if 0 ≤ _itimediff current (ts_flush + kcp.interval) then current + kcp.interval
  else ts_flush + kcp.interval

def ikcp_update (kcp : IKCPCB) (current : UInt32) : IKCPCB × List (List UInt8) :=
  let kcp := kcp.setCurrent current
  let slap := _itimediff current kcp.ts_flush
  if 10000 ≤ slap ∨ slap < -10000 then
    (kcp.setFlushTime (kcp.nextFlush current current)).ikcp_flush
  else if 0 ≤ slap then (kcp.setFlushTime (kcp.nextFlush kcp.ts_flush current)).ikcp_flush
  else (kcp, [])

end IKCPCB

end LuaServer
