import LuaServer.Network.KcpTimer

/-!
# IkcpBlock — the control block of `ikcp.cpp`

A control block sends messages in segments over datagrams that may be lost, repeated and reordered.
A message waits in `snd_queue`, cut into segments; a segment that has its number `sn` is in `snd_buf`
until the peer has acknowledged it.  What arrives is kept in `rcv_buf` by number, and moves to
`rcv_queue` when all before it has arrived.

The queues are lists and `acklist` a list of pairs; `len` of a segment is the length of its data.
Arithmetic of the 32-bit types wraps.
-/

open Reasoning

namespace LuaServer

/-! ## 1. Constants, segments, the control block -/

abbrev IKCP_RTO_NDL : Int := 30
abbrev IKCP_RTO_MIN : Int := 100
abbrev IKCP_RTO_DEF : Int := 200
abbrev IKCP_RTO_MAX : UInt32 := 60000
abbrev IKCP_CMD_PUSH : UInt32 := 81
abbrev IKCP_CMD_ACK : UInt32 := 82
abbrev IKCP_CMD_WASK : UInt32 := 83
abbrev IKCP_CMD_WINS : UInt32 := 84
abbrev IKCP_ASK_SEND : UInt32 := 1
abbrev IKCP_ASK_TELL : UInt32 := 2
abbrev IKCP_WND_SND : UInt32 := 32
abbrev IKCP_WND_RCV : UInt32 := 128
abbrev IKCP_MTU_DEF : UInt32 := 1400
abbrev IKCP_INTERVAL : UInt32 := 100
abbrev IKCP_OVERHEAD : UInt32 := 24
abbrev IKCP_DEADLINK : UInt32 := 20
abbrev IKCP_THRESH_INIT : UInt32 := 2
abbrev IKCP_THRESH_MIN : UInt32 := 2
abbrev IKCP_PROBE_INIT : UInt32 := 7000
abbrev IKCP_PROBE_LIMIT : UInt32 := 120000
abbrev IKCP_FASTACK_LIMIT : Int := 5

def _imin_ (a b : UInt32) : UInt32 := if a ≤ b then a else b

def _imax_ (a b : UInt32) : UInt32 := if b ≤ a then a else b

def _ibound_ (lower middle upper : UInt32) : UInt32 := _imin_ (_imax_ lower middle) upper

structure IKCPSEG where
  conv : UInt32
  cmd : UInt32
  frg : UInt32
  wnd : UInt32
  ts : UInt32
  sn : UInt32
  una : UInt32
  resendts : UInt32
  rto : UInt32
  fastack : UInt32
  xmit : UInt32
  data : List UInt8
deriving DecidableEq

/-- A new segment of `ikcp_send`.  `ikcp_flush` sets the other fields when it takes the segment from
`snd_queue`; they are 0 here. -/
def IKCPSEG.unnumbered (frg : UInt32) (data : List UInt8) : IKCPSEG :=
  ⟨0, 0, frg, 0, 0, 0, 0, 0, 0, 0, 0, data⟩

structure IKCPCB where
  conv : UInt32
  mtu : UInt32
  mss : UInt32
  state : UInt32
  snd_una : UInt32
  snd_nxt : UInt32
  rcv_nxt : UInt32
  ssthresh : UInt32
  rx_rttval : Int
  rx_srtt : Int
  rx_rto : Int
  rx_minrto : Int
  snd_wnd : UInt32
  rcv_wnd : UInt32
  rmt_wnd : UInt32
  cwnd : UInt32
  probe : UInt32
  current : UInt32
  interval : UInt32
  ts_flush : UInt32
  xmit : UInt32
  nrcv_buf : UInt32
  nsnd_buf : UInt32
  nrcv_que : UInt32
  nsnd_que : UInt32
  nodelay : UInt32
  updated : UInt32
  ts_probe : UInt32
  probe_wait : UInt32
  dead_link : UInt32
  incr : UInt32
  snd_queue : List IKCPSEG
  rcv_queue : List IKCPSEG
  snd_buf : List IKCPSEG
  rcv_buf : List IKCPSEG
  -- number and timestamp of what is to be acknowledged
  acklist : List (UInt32 × UInt32)
  fastresend : Int
  fastlimit : Int
  nocwnd : Int
  stream : Int
  interval_le : interval ≤ 5000
deriving DecidableEq

namespace IKCPCB

def ikcp_create (conv : UInt32) : IKCPCB where
  conv := conv
  mtu := IKCP_MTU_DEF
  mss := IKCP_MTU_DEF - IKCP_OVERHEAD
  state := 0
  snd_una := 0
  snd_nxt := 0
  rcv_nxt := 0
  ssthresh := IKCP_THRESH_INIT
  rx_rttval := 0
  rx_srtt := 0
  rx_rto := IKCP_RTO_DEF
  rx_minrto := IKCP_RTO_MIN
  snd_wnd := IKCP_WND_SND
  rcv_wnd := IKCP_WND_RCV
  rmt_wnd := IKCP_WND_RCV
  cwnd := 0
  probe := 0
  current := 0
  interval := IKCP_INTERVAL
  ts_flush := IKCP_INTERVAL
  xmit := 0
  nrcv_buf := 0
  nsnd_buf := 0
  nrcv_que := 0
  nsnd_que := 0
  nodelay := 0
  updated := 0
  ts_probe := 0
  probe_wait := 0
  dead_link := IKCP_DEADLINK
  incr := 0
  snd_queue := []
  rcv_queue := []
  snd_buf := []
  rcv_buf := []
  acklist := []
  fastresend := 0
  fastlimit := IKCP_FASTACK_LIMIT
  nocwnd := 0
  stream := 0
  interval_le := by decide

variable (kcp : IKCPCB)

/-! ## 2. Options -/

/-- The result is 0, or -1 where the control block stays as it is. -/
def ikcp_setmtu (mtu : Int) : IKCPCB × Int :=
  if mtu < 50 ∨ mtu < toInt32 IKCP_OVERHEAD.toNat then (kcp, -1)
  else
    let mtu := UInt32.ofInt mtu
    ({ kcp with mtu := mtu, mss := mtu - IKCP_OVERHEAD }, 0)

/-- The size of `kcp->buffer`, which `ikcp_create` and `ikcp_setmtu` allocate. -/
def bufferSize : Nat := ((kcp.mtu + IKCP_OVERHEAD) * 3).toNat

/-- `interval` between 10 and 5000. -/
def boundInterval (interval : Int) : UInt32 :=
  UInt32.ofInt (if interval > 5000 then 5000 else if interval < 10 then 10 else interval)

theorem boundInterval_le (interval : Int) : boundInterval interval ≤ 5000 := by
  rw [boundInterval, UInt32.le_iff_toNat_le]
  have h : ∀ x : Int, 0 ≤ x → x ≤ 5000 → (UInt32.ofInt x).toNat ≤ (5000 : UInt32).toNat := by
    intro x hlo hhi
    have hmod : (UInt32.ofInt x).toNat = (x % 2 ^ 32).toNat := by
      simp [UInt32.ofInt]
      omega
    rw [hmod, show (5000 : UInt32).toNat = 5000 from rfl]
    omega
  split
  · exact h _ (by omega) (by omega)
  split
  · exact h _ (by omega) (by omega)
  · exact h _ (by omega) (by omega)

def ikcp_interval (interval : Int) : IKCPCB :=
  { kcp with interval := boundInterval interval, interval_le := boundInterval_le interval }

def ikcp_nodelay (nodelay interval resend nc : Int) : IKCPCB :=
  let kcp := if 0 ≤ nodelay then
      { kcp with
        nodelay := UInt32.ofInt nodelay
        rx_minrto := if nodelay ≠ 0 then IKCP_RTO_NDL else IKCP_RTO_MIN }
    else kcp
  let kcp := if 0 ≤ interval then kcp.ikcp_interval interval else kcp
  let kcp := if 0 ≤ resend then { kcp with fastresend := resend } else kcp
  if 0 ≤ nc then { kcp with nocwnd := nc } else kcp

def ikcp_wndsize (sndwnd rcvwnd : Int) : IKCPCB :=
  let kcp := if 0 < sndwnd then { kcp with snd_wnd := UInt32.ofInt sndwnd } else kcp
  if 0 < rcvwnd then { kcp with rcv_wnd := _imax_ (UInt32.ofInt rcvwnd) IKCP_WND_RCV } else kcp

/-! ## 3. Messages in segments -/

/-- The loop of `ikcp_send` with the number of segments that are left to make. -/
def fragment (mss : Nat) (stream : Int) : Nat → List UInt8 → List IKCPSEG
  | 0, _ => []
  | left + 1, buffer =>
    IKCPSEG.unnumbered (if stream = 0 then UInt32.ofNat left else 0) (buffer.take mss) ::
      fragment mss stream left (buffer.drop mss)

def fragmentCount (len : Nat) : Nat :=
  if len ≤ kcp.mss.toNat then 1 else (len + kcp.mss.toNat - 1) / kcp.mss.toNat

/-- `ikcp_send` from the count on. -/
def sendFragments (buffer : List UInt8) : IKCPCB × Int :=
  let count := kcp.fragmentCount buffer.length
  if IKCP_WND_RCV.toNat ≤ count then (kcp, -2)
  else
    let count := if count = 0 then 1 else count
    ({ kcp with
      snd_queue := kcp.snd_queue ++ fragment kcp.mss.toNat kcp.stream count buffer
      nsnd_que := kcp.nsnd_que + UInt32.ofNat count }, 0)

/-- How many bytes go into the segment `old`, which is shorter than `mss`. -/
def extend (old : IKCPSEG) (buffer : List UInt8) : Nat :=
  let capacity := kcp.mss.toNat - old.data.length
  if buffer.length < capacity then buffer.length else capacity

def setSndQueue (snd_queue : List IKCPSEG) : IKCPCB := { kcp with snd_queue := snd_queue }

/-- In stream mode: the segment at the end is replaced by a longer one; with what is left. -/
def extendLast (buffer : List UInt8) : IKCPCB × List UInt8 :=
  match kcp.snd_queue.getLast? with
  | none => (kcp, buffer)
  | some old =>
    if old.data.length < kcp.mss.toNat then
      (kcp.setSndQueue (kcp.snd_queue.dropLast ++
        [IKCPSEG.unnumbered 0 (old.data ++ buffer.take (kcp.extend old buffer))]),
        buffer.drop (kcp.extend old buffer))
    else (kcp, buffer)

/-- `len` is the length of the buffer. -/
def ikcp_send (buffer : List UInt8) : IKCPCB × Int :=
  if kcp.stream ≠ 0 then
    let r := kcp.extendLast buffer
    if r.2 = [] then (r.1, 0) else r.1.sendFragments r.2
  else kcp.sendFragments buffer

/-- The segments up to the first with `frg` 0: their data, and the segments behind them. -/
def merge : List IKCPSEG → List UInt8 × List IKCPSEG
  | [] => ([], [])
  | seg :: rest =>
    if seg.frg = 0 then (seg.data, rest) else (seg.data ++ (merge rest).1, (merge rest).2)

def ikcp_peeksize : Int :=
  match kcp.rcv_queue with
  | [] => -1
  | seg :: _ =>
    if seg.frg = 0 then toInt32 seg.data.length
    else if kcp.nrcv_que < seg.frg + 1 then -1
    else toInt32 (merge kcp.rcv_queue).1.length

/-- The loop that moves what is available from `rcv_buf`, here with its segments, to `rcv_queue`. -/
def moveAvailable (kcp : IKCPCB) : List IKCPSEG → IKCPCB
  | [] => { kcp with rcv_buf := [] }
  | seg :: rest =>
    if seg.sn = kcp.rcv_nxt ∧ kcp.nrcv_que < kcp.rcv_wnd then
      moveAvailable
        { kcp with
          nrcv_buf := kcp.nrcv_buf - 1
          rcv_queue := kcp.rcv_queue ++ [seg]
          nrcv_que := kcp.nrcv_que + 1
          rcv_nxt := kcp.rcv_nxt + 1 } rest
    else { kcp with rcv_buf := seg :: rest }

/-- The segments of one message leave `rcv_queue`. -/
def takeMessage : IKCPCB :=
  let rest := (merge kcp.rcv_queue).2
  { kcp with
    rcv_queue := rest
    nrcv_que := kcp.nrcv_que - UInt32.ofNat (kcp.rcv_queue.length - rest.length) }

/-- Fast recover: the peer is told that there is room again. -/
def fastRecover (full : Bool) : IKCPCB :=
  if kcp.nrcv_que < kcp.rcv_wnd ∧ full then { kcp with probe := kcp.probe ||| IKCP_ASK_TELL }
  else kcp

/-- `ikcp_recv` behind the message. -/
def afterRecv (full : Bool) : IKCPCB := (kcp.moveAvailable kcp.rcv_buf).fastRecover full

/-- With what is written to the buffer.  A negative `len` leaves the message in the queue. -/
def ikcp_recv (len : Int) : IKCPCB × Int × List UInt8 :=
  if kcp.rcv_queue = [] then (kcp, -1, [])
  else if kcp.ikcp_peeksize < 0 then (kcp, -2, [])
  else if (if len < 0 then -len else len) < kcp.ikcp_peeksize then (kcp, -3, [])
  else
    ((if len < 0 then kcp else kcp.takeMessage).afterRecv (kcp.rcv_wnd ≤ kcp.nrcv_que),
      toInt32 (merge kcp.rcv_queue).1.length, (merge kcp.rcv_queue).1)

/-! ## 4. Acknowledgements -/

def setRto (rx_rttval rx_srtt rx_rto : Int) : IKCPCB :=
  { kcp with rx_rttval := rx_rttval, rx_srtt := rx_srtt, rx_rto := rx_rto }

/-- `int` arithmetic wraps. -/
def ikcp_update_ack (rtt : Int) : IKCPCB :=
  let delta := if rtt - kcp.rx_srtt < 0 then -(rtt - kcp.rx_srtt) else rtt - kcp.rx_srtt
  let rttval := if kcp.rx_srtt = 0 then rtt.tdiv 2
    else toInt32 ((toInt32 (3 * kcp.rx_rttval) + delta).tdiv 4)
  let mean := (toInt32 (toInt32 (7 * kcp.rx_srtt) + rtt)).tdiv 8
  let srtt := if kcp.rx_srtt = 0 then rtt else if mean < 1 then 1 else mean
  let rto := UInt32.ofInt srtt + _imax_ kcp.interval (UInt32.ofInt (4 * rttval))
  kcp.setRto rttval srtt (toInt32 (_ibound_ (UInt32.ofInt kcp.rx_minrto) rto IKCP_RTO_MAX).toNat)

def ikcp_shrink_buf : IKCPCB :=
  match kcp.snd_buf with
  | seg :: _ => { kcp with snd_una := seg.sn }
  | [] => { kcp with snd_una := kcp.snd_nxt }

/-- The loop of `ikcp_parse_ack`. -/
def removeSegment (sn : UInt32) : List IKCPSEG → List IKCPSEG
  | [] => []
  | seg :: rest =>
    if sn = seg.sn then rest
    else if _itimediff sn seg.sn < 0 then seg :: rest
    else seg :: removeSegment sn rest

/-- `snd_buf` has lost some segments. -/
def setSndBuf (snd_buf : List IKCPSEG) : IKCPCB :=
  { kcp with
    snd_buf := snd_buf
    nsnd_buf := kcp.nsnd_buf - UInt32.ofNat (kcp.snd_buf.length - snd_buf.length) }

def ikcp_parse_ack (sn : UInt32) : IKCPCB :=
  if _itimediff sn kcp.snd_una < 0 ∨ 0 ≤ _itimediff sn kcp.snd_nxt then kcp
  else kcp.setSndBuf (removeSegment sn kcp.snd_buf)

def ikcp_parse_una (una : UInt32) : IKCPCB :=
  kcp.setSndBuf (kcp.snd_buf.dropWhile fun seg => 0 < _itimediff una seg.sn)

/-- The loop of `ikcp_parse_fastack`. -/
def countFastack (sn : UInt32) : List IKCPSEG → List IKCPSEG
  | [] => []
  | seg :: rest =>
    if _itimediff sn seg.sn < 0 then seg :: rest
    else (if sn ≠ seg.sn then { seg with fastack := seg.fastack + 1 } else seg) ::
      countFastack sn rest

/-- The timestamp is not used: `IKCP_FASTACK_CONSERVE` is not defined. -/
def ikcp_parse_fastack (sn : UInt32) : IKCPCB :=
  if _itimediff sn kcp.snd_una < 0 ∨ 0 ≤ _itimediff sn kcp.snd_nxt then kcp
  else { kcp with snd_buf := countFastack sn kcp.snd_buf }

def ikcp_ack_push (sn ts : UInt32) : IKCPCB := { kcp with acklist := kcp.acklist ++ [(sn, ts)] }

/-! ## 5. Data -/

/-- The loop of `ikcp_parse_data` from the back of `rcv_buf`, which is the reversed list here; none
is `repeat`. -/
def insertBack (newseg : IKCPSEG) : List IKCPSEG → Option (List IKCPSEG)
  | [] => some [newseg]
  | seg :: prev =>
    if seg.sn = newseg.sn then none
    else if 0 < _itimediff newseg.sn seg.sn then some (newseg :: seg :: prev)
    else (insertBack newseg prev).map (seg :: ·)

def ikcp_parse_data (newseg : IKCPSEG) : IKCPCB :=
  if 0 ≤ _itimediff newseg.sn (kcp.rcv_nxt + kcp.rcv_wnd) ∨ _itimediff newseg.sn kcp.rcv_nxt < 0 then
    kcp
  else
    match insertBack newseg kcp.rcv_buf.reverse with
    | some buf => { kcp with nrcv_buf := kcp.nrcv_buf + 1 }.moveAvailable buf.reverse
    | none => kcp.moveAvailable kcp.rcv_buf

/-! ## 6. When to call `ikcp_update` -/

def clock : IkcpClock where
  updated := kcp.updated ≠ 0
  ts_flush := kcp.ts_flush
  resendts := kcp.snd_buf.map IKCPSEG.resendts
  interval := kcp.interval
  interval_le := kcp.interval_le

def ikcp_check (current : UInt32) : UInt32 := kcp.clock.ikcp_check current

end IKCPCB

end LuaServer
