import LuaServer.Common.ByteBuffer
import LuaServer.Reasoning.WebSocketFrame

/-!
# WebSocketPacket — a frame

The head of a frame has at most 14 bytes.  A packet keeps them right-aligned in front of its body:
the head that is read or written begins at `m_headpos`.  Of a head that is read, the first two bytes
are kept apart in `m_head`; the extended length is looked for behind offset 2.
-/

open Reasoning

namespace LuaServer

abbrev WS_HEAD_SIZE : Nat := 2

abbrev WS_MAX_HEAD_SIZE : Nat := 14

-- the values of `WSFrameType` that the connection uses
abbrev BINARY_FRAME : Nat := 0x82

abbrev PING_FRAME : Nat := 0x89

abbrev PONG_FRAME : Nat := 0x8A

abbrev CLOSE_FRAME : Nat := 0x08

@[ext] structure WebSocketPacket extends BasePacket WS_MAX_HEAD_SIZE where
  m_head : List UInt8
  m_headpos : Nat
deriving DecidableEq

namespace WebSocketPacket

/-- `new WebSocketPacket`.  What `m_head` holds before a head has been read is never looked at. -/
def construct : WebSocketPacket where
  toBasePacket := BasePacket.construct WS_MAX_HEAD_SIZE []
  m_head := [0, 0]
  m_headpos := 0

def zero (p : WebSocketPacket) : WebSocketPacket :=
  { p with toBasePacket := p.toBasePacket.zero, m_headpos := 0 }

def getOpcode (p : WebSocketPacket) : UInt8 := p.m_head.getD 0 0 &&& 0x0f

def getMask (p : WebSocketPacket) : UInt8 := (p.m_head.getD 1 0 >>> 7) &&& 0x01

def getPayloadLen (p : WebSocketPacket) : UInt8 := p.m_head.getD 1 0 &&& 0x7f

def isHeadFull (p : WebSocketPacket) : Bool := decide (WS_MAX_HEAD_SIZE ≤ p.wpos)

/-- message head mark length -/
def getMarkLen (p : WebSocketPacket) : Int :=
  let paylen := p.getPayloadLen
  if paylen < 126 then paylen.toNat
  else if paylen = 126 then toInt32 (toUint32 (p.getValue WS_HEAD_SIZE 2))
  else toInt32 (toUint32 (p.getValue WS_HEAD_SIZE 8))

def calcHeadSize (p : WebSocketPacket) : Nat :=
  let paylen := p.getPayloadLen
  WS_HEAD_SIZE + (if paylen = 126 then 2 else if paylen = 127 then 8 else 0) +
    if p.getMask ≠ 0 then 4 else 0

theorem two_le_calcHeadSize (p : WebSocketPacket) : 2 ≤ p.calcHeadSize := by
  simp only [calcHeadSize, WS_HEAD_SIZE]
  omega

theorem calcHeadSize_le (p : WebSocketPacket) : p.calcHeadSize ≤ 14 := by
  have hlen :
      (if p.getPayloadLen = 126 then 2 else if p.getPayloadLen = 127 then 8 else 0) ≤ 8 := by
    split
    · decide
    · split <;> decide
  have hmask : (if p.getMask ≠ 0 then 4 else 0) ≤ 4 := by
    split <;> decide
  simp only [calcHeadSize, WS_HEAD_SIZE]
  omega

def getMaskKey (p : WebSocketPacket) : Nat := p.getValue (WS_MAX_HEAD_SIZE - 4) 4

/-! ## 1. Reading a head -/

/-- `memcpy(__m_head + _wpos, pbuff, readsize); _wpos += readsize`. -/
def copyFixed (p : WebSocketPacket) (src : List UInt8) : WebSocketPacket :=
  { p with
    toBasePacket := p.toBasePacket.advance src.length
    m_head := overwrite p.m_head p.wpos src }

/-- When the two bytes are there the rest of the head gets its place in front of the body. -/
def placeRest (p : WebSocketPacket) : WebSocketPacket :=
  if p.wpos = WS_HEAD_SIZE then
    { p with
      toBasePacket := p.toBasePacket.setWpos (WS_MAX_HEAD_SIZE - p.calcHeadSize + WS_HEAD_SIZE) (by
        have h2 := p.two_le_calcHeadSize
        have h14 := p.calcHeadSize_le
        have hle := p.head_le
        simp only [WS_MAX_HEAD_SIZE, WS_HEAD_SIZE] at *
        omega)
      m_headpos := WS_MAX_HEAD_SIZE - p.calcHeadSize }
  else p

/-- The part of `readFrameHead` behind the two bytes. -/
def readRest (p : WebSocketPacket) (pbuff : List UInt8) (size : Nat) : WebSocketPacket × Nat :=
  if WS_HEAD_SIZE ≤ p.wpos ∧ 0 < size then
    let rsize := toInt32 (toSizeT ((WS_MAX_HEAD_SIZE : Int) - p.wpos))
    if 0 < rsize then
      let n := if rsize.toNat ≤ size then rsize.toNat else size
      ({ p with toBasePacket := p.toBasePacket.fill (pbuff.take n) }, n)
    else (p, 0)
  else (p, 0)

def readFrameHead (p : WebSocketPacket) (pData : List UInt8) (size : Nat) : WebSocketPacket × Nat :=
  let rsize := toInt32 (toSizeT ((WS_HEAD_SIZE : Int) - p.wpos))
  if 0 < rsize then
    let n := if rsize.toNat ≤ size then rsize.toNat else size
    let p' := (p.copyFixed (pData.take n)).placeRest
    -- `pbuff` moves on when the two bytes are there; otherwise nothing more is read
    if WS_HEAD_SIZE ≤ p'.wpos then
      let r := p'.readRest (pData.drop n) (size - n)
      (r.1, n + r.2)
    else (p', n)
  else p.readRest pData size

/-! ## 2. Writing a head -/

def writeFrameHead (p : WebSocketPacket) (bodylen : Int) (frame_type : Nat) : WebSocketPacket :=
  let bytelength : Nat :=
    if bodylen ≤ 125 then (bodylen % 256).toNat else if bodylen ≤ 0xffff then 126 else 127
  -- `EndianConvert` leaves the value in the order of the host
  let extended : List UInt8 :=
    if bodylen ≤ 125 then []
    else if bodylen ≤ 0xffff then leBytes 2 (bodylen % 2 ^ 16).toNat
    else leBytes 8 (toSizeT bodylen)
  let headpos := WS_MAX_HEAD_SIZE - extended.length
  let b := p.toBasePacket.put headpos extended
  let b := b.put (headpos - 1) (leBytes 1 bytelength)
  let b := b.put (headpos - 2) (leBytes 1 frame_type)
  { p with toBasePacket := b, m_headpos := headpos - 2 }

def sendData (p : WebSocketPacket) : SendData where
  sendStream := p.storage.drop p.m_headpos
  sendSize := toInt32 (toSizeT ((p.wpos : Int) - p.m_headpos))
  lo := (toInt32_bounds _).1
  hi := (toInt32_bounds _).2

/-- `moveData` of a packet of the same class, and the packet that is left behind. -/
def moveData (p packet : WebSocketPacket) : WebSocketPacket × WebSocketPacket :=
  let len := packet.getBodySize
  let moved := p.toBasePacket.moveData packet.toBasePacket
  (writeFrameHead { p with toBasePacket := moved.1 } len BINARY_FRAME,
    { packet with toBasePacket := moved.2, m_headpos := 0 })

def setPongPacket (p : WebSocketPacket) : WebSocketPacket :=
  if 1 ≤ p.wpos then
    { p with toBasePacket := p.toBasePacket.put p.m_headpos (leBytes 1 PONG_FRAME) }
  else p

def append (p : WebSocketPacket) (src : List UInt8) : WebSocketPacket :=
  { p with toBasePacket := p.toBasePacket.append src }

/-! ## 3. What a packet shows to the other side -/

def shown (p : WebSocketPacket) : List UInt8 := (p.storage.take p.wpos).drop p.m_headpos

theorem sendData_bytes (p : WebSocketPacket) (hle : p.m_headpos ≤ p.wpos)
    (hlt : p.wpos - p.m_headpos < 2 ^ 31) : p.sendData.bytes = p.shown := by
  have hsize : p.sendData.sendSize = (p.wpos - p.m_headpos : Nat) := by
    show toInt32 (toSizeT ((p.wpos : Int) - p.m_headpos)) = _
    rw [toInt32_toSizeT, ← Int.ofNat_sub hle, toInt32_of_lt hlt]
  rw [SendData.bytes, hsize, toSizeT_of_lt (by omega) (by omega), Int.toNat_natCast, shown,
    List.drop_take]
  rfl

theorem shown_append (p : WebSocketPacket) (src : List UInt8) (h : p.m_headpos ≤ p.wpos) :
    (p.append src).shown = p.shown ++ src := by
  have htake : (p.append src).storage.take (p.append src).wpos = p.storage.take p.wpos ++ src :=
    p.toBasePacket.append_take_wpos src
  have hlen : p.m_headpos ≤ (p.storage.take p.wpos).length := by
    rw [List.length_take, Nat.min_eq_left p.wpos_le]
    exact h
  rw [shown, htake, shown]
  exact List.drop_append_of_le_length hlen

theorem put_head_storage (b : BasePacket WS_MAX_HEAD_SIZE) {extended : List UInt8} {n : Nat}
    (h : extended.length = n) (hn : n ≤ 12) (b₀ b₁ : UInt8) :
    (((b.put (14 - n) extended).put (14 - n - 1) [b₁]).put (14 - n - 2) [b₀]).storage =
      overwrite b.storage (12 - n) (b₀ :: b₁ :: extended) := by
  have hle : 14 ≤ b.storage.length := b.head_le
  have hlast : 14 - n = (12 - n + [b₀, b₁].length) := by
    show 14 - n = 12 - n + 2
    omega
  show overwrite (overwrite (overwrite b.storage (14 - n) extended) (14 - n - 1) [b₁])
    (14 - n - 2) [b₀] = _
  have h2 : 14 - n - 1 = 12 - n + [b₀].length := by
    show 14 - n - 1 = 12 - n + 1
    omega
  have h1 : 14 - n - 2 = 12 - n := by omega
  have hlen : (overwrite b.storage (14 - n) extended).length = b.storage.length :=
    overwrite_length (by omega)
  -- from the back to the front, each copy ends where the one before begins
  rw [h1, h2, overwrite_overwrite_before (by rw [hlen]; simp only [List.length_singleton]; omega),
    hlast, List.singleton_append, overwrite_overwrite_before (by
      simp only [List.length_cons, List.length_nil]; omega)]
  rfl

/-- The head that `writeFrameHead` puts in front of a body. -/
def writtenHead (bodylen : Nat) (frame_type : Nat) : List UInt8 :=
  UInt8.ofNat frame_type ::
    if bodylen ≤ 125 then [UInt8.ofNat bodylen]
    else if bodylen ≤ 65535 then 126 :: leBytes 2 bodylen
    else 127 :: leBytes 8 bodylen

/-- The head depends on the length and the type alone, and stands right in front of the body. -/
theorem writeFrameHead_stream (bodylen : Int) (frame_type : Nat) :
    ∃ head : List UInt8, 2 ≤ head.length ∧ head.length ≤ 14 ∧
      (∀ n : Nat, n < 2 ^ 31 → bodylen = n → head = writtenHead n frame_type) ∧
      ∀ p : WebSocketPacket,
        (p.writeFrameHead bodylen frame_type).m_headpos = 14 - head.length ∧
        (p.writeFrameHead bodylen frame_type).storage.drop (14 - head.length) =
          head ++ p.storage.drop 14 := by
  -- the three length classes differ in the bytes between the second byte and the body
  obtain ⟨b₁, extended, hext, hwritten, hdef⟩ : ∃ (b₁ : UInt8) (extended : List UInt8),
      extended.length ≤ 12 ∧
      (∀ n : Nat, n < 2 ^ 31 → bodylen = n →
        UInt8.ofNat frame_type :: b₁ :: extended = writtenHead n frame_type) ∧
      ∀ p : WebSocketPacket, p.writeFrameHead bodylen frame_type = { p with
        toBasePacket := ((p.toBasePacket.put (14 - extended.length) extended).put
          (14 - extended.length - 1) [b₁]).put (14 - extended.length - 2) [UInt8.ofNat frame_type]
        m_headpos := 14 - extended.length - 2 } := by
    by_cases h125 : bodylen ≤ 125
    · refine ⟨UInt8.ofNat (bodylen % 256).toNat, [], by decide, ?_, ?_⟩
      · rintro n - rfl
        have hmod : ((n : Int) % 256).toNat = n := by omega
        rw [writtenHead, if_pos (by omega), hmod]
      · intro p
        simp only [writeFrameHead, if_pos h125]
        rfl
    by_cases hword : bodylen ≤ 0xffff
    · refine ⟨126, leBytes 2 (bodylen % 2 ^ 16).toNat, by rw [leBytes_length]; decide, ?_, ?_⟩
      · rintro n - rfl
        have hmod : ((n : Int) % 2 ^ 16).toNat = n := by omega
        rw [writtenHead, if_neg (by omega), if_pos (by omega), hmod]
      · intro p
        simp only [writeFrameHead, if_neg h125, if_pos hword]
        rfl
    · refine ⟨127, leBytes 8 (toSizeT bodylen), by rw [leBytes_length]; decide, ?_, ?_⟩
      · rintro n hn rfl
        have hmod : toSizeT n = n := by rw [toSizeT_of_lt] <;> omega
        rw [writtenHead, if_neg (by omega), if_neg (by omega), hmod]
      · intro p
        simp only [writeFrameHead, if_neg h125, if_neg hword]
        rfl
  refine ⟨UInt8.ofNat frame_type :: b₁ :: extended, by simp only [List.length_cons]; omega,
    by simp only [List.length_cons]; omega, hwritten, ?_⟩
  intro p
  have hpos : 14 - (UInt8.ofNat frame_type :: b₁ :: extended).length = 12 - extended.length := by
    simp only [List.length_cons]
    omega
  have hend : 12 - extended.length + (UInt8.ofNat frame_type :: b₁ :: extended).length = 14 := by
    simp only [List.length_cons]
    omega
  have hle : 14 ≤ p.storage.length := p.head_le
  have htake : (p.storage.take (12 - extended.length)).length = 12 - extended.length := by
    rw [List.length_take]
    omega
  rw [hdef, hpos]
  refine ⟨show 14 - extended.length - 2 = _ by omega, ?_⟩
  rw [put_head_storage p.toBasePacket rfl hext, overwrite, hend, List.append_assoc,
    List.drop_left' htake]

theorem writeFrameHead_shown (p : WebSocketPacket) (hw : 14 ≤ p.wpos) {n : Nat} (hn : n < 2 ^ 31)
    (frame_type : Nat) :
    (p.writeFrameHead n frame_type).shown =
        writtenHead n frame_type ++ p.toBasePacket.body ∧
      (p.writeFrameHead n frame_type).m_headpos ≤ 12 := by
  obtain ⟨head, hle2, hle14, hwritten, hstream⟩ := writeFrameHead_stream n frame_type
  obtain ⟨hpos, hdrop⟩ := hstream p
  rw [← hwritten n hn rfl, hpos]
  refine ⟨?_, by omega⟩
  have hlen : p.wpos - (14 - head.length) - head.length = p.wpos - 14 := by omega
  show ((p.writeFrameHead n frame_type).storage.take p.wpos).drop
    (p.writeFrameHead n frame_type).m_headpos = _
  rw [hpos, List.drop_take, hdrop, List.take_append, List.take_of_length_le (by omega), hlen,
    BasePacket.body, List.drop_take]

/-! ## 4. A head byte by byte -/

def fill (p : WebSocketPacket) (src : List UInt8) : WebSocketPacket :=
  { p with toBasePacket := p.toBasePacket.fill src }

def headByte (p : WebSocketPacket) (b : UInt8) : WebSocketPacket :=
  if p.wpos < WS_HEAD_SIZE then (p.copyFixed [b]).placeRest else p.fill [b]

/-- Takes bytes until the head is full. -/
def headBytes : WebSocketPacket → List UInt8 → WebSocketPacket × List UInt8
  | p, [] => (p, [])
  | p, b :: bs => if p.isHeadFull then (p, b :: bs) else headBytes (p.headByte b) bs

theorem isHeadFull_iff (p : WebSocketPacket) : p.isHeadFull = true ↔ 14 ≤ p.wpos := by
  rw [isHeadFull, decide_eq_true_eq]

theorem isHeadFull_eq_false_iff (p : WebSocketPacket) : p.isHeadFull = false ↔ p.wpos < 14 := by
  rw [isHeadFull, decide_eq_false_iff_not, Nat.not_le]

theorem headBytes_full {p : WebSocketPacket} (h : 14 ≤ p.wpos) (bs : List UInt8) :
    p.headBytes bs = (p, bs) := by
  cases bs with
  | nil => rfl
  | cons b bs => rw [headBytes, if_pos ((isHeadFull_iff p).mpr h)]

theorem headBytes_cons {p : WebSocketPacket} (h : p.wpos < 14) (b : UInt8) (bs : List UInt8) :
    p.headBytes (b :: bs) = (p.headByte b).headBytes bs := by
  rw [headBytes, if_neg (by rw [isHeadFull_iff]; omega)]

theorem headBytes_length_le (p : WebSocketPacket) (bs : List UInt8) :
    (p.headBytes bs).2.length ≤ bs.length := by
  induction bs generalizing p with
  | nil => exact le_refl 0
  | cons b bs ih =>
    rw [headBytes]
    split
    · exact le_refl _
    · exact (ih _).trans (Nat.le_succ _)

/-- A head that is not full takes at least one byte. -/
theorem headBytes_length_lt {p : WebSocketPacket} (h : p.isHeadFull = false) {bs : List UInt8}
    (hbs : bs ≠ []) : (p.headBytes bs).2.length < bs.length := by
  obtain ⟨b, rest, rfl⟩ := List.exists_cons_of_ne_nil hbs
  rw [headBytes_cons ((isHeadFull_eq_false_iff p).mp h)]
  exact Nat.lt_succ_of_le (headBytes_length_le _ rest)

theorem fill_fill (p : WebSocketPacket) (x y : List UInt8) :
    (p.fill x).fill y = p.fill (x ++ y) := by
  simp only [fill, BasePacket.fill_fill]

theorem headBytes_rest {p : WebSocketPacket} (h2 : 2 ≤ p.wpos) (h14 : p.wpos ≤ 14)
    (bs : List UInt8) :
    p.headBytes bs = (p.fill (bs.take (14 - p.wpos)), bs.drop (14 - p.wpos)) := by
  have hnil : p.fill [] = p := by simp only [fill, BasePacket.fill_nil]
  induction bs generalizing p with
  | nil => rw [List.take_nil, List.drop_nil, hnil]; rfl
  | cons b bs ih =>
    by_cases hfull : p.wpos = 14
    · rw [headBytes_full hfull.ge, hfull, Nat.sub_self, List.take_zero, List.drop_zero, hnil]
    · have hbyte : p.headByte b = p.fill [b] := if_neg (by simp only [WS_HEAD_SIZE]; omega)
      have hw : (p.fill [b]).wpos = p.wpos + 1 := rfl
      have hsub : 14 - p.wpos = 14 - (p.wpos + 1) + 1 := by omega
      rw [headBytes_cons (by omega), hbyte, ih (by omega) (by omega)
        (by simp only [fill, BasePacket.fill_nil]), hw, fill_fill, hsub, List.take_succ_cons,
        List.drop_succ_cons]
      rfl

theorem readRest_eq {p : WebSocketPacket} (h2 : 2 ≤ p.wpos) (h14 : p.wpos ≤ 14)
    (bs : List UInt8) :
    ((p.readRest bs bs.length).1, bs.drop (p.readRest bs bs.length).2) = p.headBytes bs ∧
      (p.readRest bs bs.length).2 ≤ bs.length := by
  rw [headBytes_rest h2 h14]
  by_cases hbs : bs = []
  · subst hbs
    simp [readRest, fill]
  have hpos := List.length_pos_iff.mpr hbs
  have hr : toInt32 (toSizeT ((WS_MAX_HEAD_SIZE : Int) - p.wpos)) = (14 - p.wpos : Nat) := by
    rw [toInt32_toSizeT, ← Int.ofNat_sub h14]
    exact toInt32_of_lt (by omega)
  simp only [readRest, if_pos (And.intro h2 hpos), hr, Int.toNat_natCast]
  -- a full head takes nothing more
  by_cases hfull : p.wpos = 14
  · simp [hfull, fill]
  · have hn : (if 14 - p.wpos ≤ bs.length then 14 - p.wpos else bs.length) =
        min (14 - p.wpos) bs.length := by
      split <;> omega
    rw [if_pos (by omega), hn]
    refine ⟨?_, Nat.min_le_right _ _⟩
    rw [← List.take_eq_take_min, ← List.drop_eq_drop_min]
    rfl

theorem copyFixed_wpos {p : WebSocketPacket} {src : List UInt8} (h : p.wpos + src.length ≤ 14) :
    (p.copyFixed src).wpos = p.wpos + src.length :=
  p.toBasePacket.advance_wpos (h.trans p.head_le)

theorem copyFixed_copyFixed {p : WebSocketPacket} {x y : List UInt8}
    (h : p.wpos + (x.length + y.length) ≤ 14) (hhead : p.wpos ≤ p.m_head.length) :
    (p.copyFixed x).copyFixed y = p.copyFixed (x ++ y) := by
  have hw : (p.copyFixed x).wpos = p.wpos + x.length := copyFixed_wpos (by omega)
  have hbase :
      ((p.copyFixed x).copyFixed y).toBasePacket = (p.copyFixed (x ++ y)).toBasePacket := by
    show (p.toBasePacket.advance x.length).advance y.length = p.toBasePacket.advance (x ++ y).length
    rw [BasePacket.advance_advance _ (h.trans p.head_le), ← List.length_append]
  have hbytes : ((p.copyFixed x).copyFixed y).m_head = (p.copyFixed (x ++ y)).m_head := by
    show overwrite (overwrite p.m_head p.wpos x) (p.copyFixed x).wpos y = _
    rw [hw, overwrite_overwrite hhead]
    rfl
  exact congrArg₂ (fun b head => WebSocketPacket.mk b head p.m_headpos) hbase hbytes

theorem placeRest_of_ne {p : WebSocketPacket} (h : p.wpos ≠ 2) : p.placeRest = p := if_neg h

theorem placeRest_wpos {p : WebSocketPacket} (h : p.wpos = 2) :
    2 ≤ p.placeRest.wpos ∧ p.placeRest.wpos ≤ 14 := by
  have hcalc := p.two_le_calcHeadSize
  have hw : p.placeRest.wpos = 14 - p.calcHeadSize + 2 := by
    rw [placeRest, if_pos h]
    rfl
  omega

theorem readFrameHead_fixed {p : WebSocketPacket} (h : p.wpos < 2) {bs : List UInt8} {n : Nat}
    (hn : min (2 - p.wpos) bs.length = n) :
    p.readFrameHead bs bs.length =
      if 2 ≤ ((p.copyFixed (bs.take n)).placeRest).wpos then
        ((((p.copyFixed (bs.take n)).placeRest).readRest (bs.drop n) (bs.drop n).length).1,
          n + (((p.copyFixed (bs.take n)).placeRest).readRest (bs.drop n) (bs.drop n).length).2)
      else ((p.copyFixed (bs.take n)).placeRest, n) := by
  have hr : toInt32 (toSizeT ((WS_HEAD_SIZE : Int) - p.wpos)) = (2 - p.wpos : Nat) := by
    rw [toInt32_toSizeT, ← Int.ofNat_sub (show p.wpos ≤ 2 by omega)]
    exact toInt32_of_lt (show 2 - p.wpos < 2 ^ 31 by omega)
  have hpos : (0 : Int) < (2 - p.wpos : Nat) := by omega
  have hmin : (if 2 - p.wpos ≤ bs.length then 2 - p.wpos else bs.length) = n := by
    split <;> omega
  simp only [readFrameHead, hr, if_pos hpos, Int.toNat_natCast, hmin, List.length_drop]

/-- `readFrameHead` takes what the head still needs, byte by byte. -/
theorem readFrameHead_eq {p : WebSocketPacket} (h : p.wpos < 14) {bs : List UInt8} (hbs : bs ≠ []) :
    ((p.readFrameHead bs bs.length).1, bs.drop (p.readFrameHead bs bs.length).2) =
        p.headBytes bs ∧
      (p.readFrameHead bs bs.length).2 ≤ bs.length := by
  by_cases h2 : 2 ≤ p.wpos
  · have hr : ¬ 0 < toInt32 (toSizeT ((WS_HEAD_SIZE : Int) - p.wpos)) := by
      rw [toInt32_toSizeT, toInt32_of_bounds] <;> simp only [WS_HEAD_SIZE] <;> omega
    rw [readFrameHead, if_neg hr]
    exact readRest_eq h2 (by omega) bs
  have hbyte : ∀ b, p.headByte b = (p.copyFixed [b]).placeRest := by
    intro b
    exact if_pos (by simp only [WS_HEAD_SIZE]; omega)
  obtain ⟨b, rest, rfl⟩ := List.exists_cons_of_ne_nil hbs
  rw [headBytes_cons h, hbyte]
  by_cases h1 : p.wpos = 1
  · -- the second byte, and what follows it
    have hw : (p.copyFixed [b]).wpos = 2 := by
      rw [copyFixed_wpos (by simp [h1]), h1, List.length_singleton]
    obtain ⟨hw2, hw14⟩ := placeRest_wpos hw
    obtain ⟨heq, hle⟩ := readRest_eq hw2 hw14 rest
    rw [readFrameHead_fixed (n := 1) (by omega) (by rw [h1, List.length_cons]; omega)]
    simp only [List.take_succ_cons, List.take_zero, List.drop_succ_cons, List.drop_zero, if_pos hw2]
    rw [Nat.add_comm 1, List.drop_succ_cons]
    exact ⟨heq, by rw [List.length_cons]; omega⟩
  have h0 : p.wpos = 0 := by omega
  have hw : (p.copyFixed [b]).wpos = 1 := by
    rw [copyFixed_wpos (by simp [h0]), h0, List.length_singleton]
  have hplace : (p.copyFixed [b]).placeRest = p.copyFixed [b] :=
    placeRest_of_ne (by rw [hw]; decide)
  rw [hplace]
  cases rest with
  | nil =>
    rw [readFrameHead_fixed (n := 1) (by omega) (by rw [h0]; rfl)]
    simp only [List.take_succ_cons, List.take_zero, hplace, hw]
    exact ⟨rfl, le_refl _⟩
  | cons c rest =>
    -- both bytes at once
    have hsecond : (p.copyFixed [b]).headByte c = (p.copyFixed [b, c]).placeRest := by
      rw [headByte, if_pos (by rw [hw]; decide), copyFixed_copyFixed (by simp [h0])
        (by rw [h0]; exact Nat.zero_le _)]
      rfl
    have hw' : (p.copyFixed [b, c]).wpos = 2 := by
      rw [copyFixed_wpos (by simp [h0]), h0]
      rfl
    obtain ⟨hw2, hw14⟩ := placeRest_wpos hw'
    obtain ⟨heq, hle⟩ := readRest_eq hw2 hw14 rest
    rw [readFrameHead_fixed (n := 2) (by omega)
        (by rw [h0, List.length_cons, List.length_cons]; omega),
      headBytes_cons (by rw [hw]; decide), hsecond]
    simp only [List.take_succ_cons, List.take_zero, List.drop_succ_cons, List.drop_zero, if_pos hw2]
    rw [Nat.add_comm 2, List.drop_succ_cons, List.drop_succ_cons]
    exact ⟨heq, by rw [List.length_cons, List.length_cons]; omega⟩

theorem headBytes_append (p : WebSocketPacket) (a b : List UInt8) :
    p.headBytes (a ++ b) =
      if (p.headBytes a).2 = [] then (p.headBytes a).1.headBytes b
      else ((p.headBytes a).1, (p.headBytes a).2 ++ b) := by
  induction a generalizing p with
  | nil => rfl
  | cons x a ih =>
    by_cases hfull : p.isHeadFull = true
    · have hw := (isHeadFull_iff p).mp hfull
      rw [headBytes_full hw, headBytes_full hw, if_neg (List.cons_ne_nil x a)]
    · have hw := (isHeadFull_eq_false_iff p).mp (Bool.eq_false_iff.mpr hfull)
      rw [List.cons_append, headBytes_cons hw, headBytes_cons hw]
      exact ih (p.headByte x)

/-- What is left has found the head full. -/
theorem le_headBytes_wpos {p : WebSocketPacket} {bs : List UInt8} (h : (p.headBytes bs).2 ≠ []) :
    14 ≤ (p.headBytes bs).1.wpos := by
  induction bs generalizing p with
  | nil => exact absurd rfl h
  | cons b bs ih =>
    rw [headBytes] at h ⊢
    split at h
    · next hfull =>
      rw [if_pos hfull]
      exact (isHeadFull_iff p).mp hfull
    · next hfull =>
      rw [if_neg hfull]
      exact ih h

theorem readFrameHead_take (p : WebSocketPacket) (src : List UInt8) (size : Nat) :
    p.readFrameHead src size = p.readFrameHead (src.take size) size := by
  have htake : ∀ r : Int, (if r.toNat ≤ size then r.toNat else size) ≤ size := by
    intro r
    split <;> omega
  have hrest : ∀ (q : WebSocketPacket) (bs : List UInt8) (n : Nat),
      q.readRest bs n = q.readRest (bs.take n) n := by
    intro q bs n
    have hn : ∀ r : Int, (if r.toNat ≤ n then r.toNat else n) ≤ n := by
      intro r
      split <;> omega
    simp only [readRest, List.take_take, Nat.min_eq_left (hn _)]
  simp only [readFrameHead, List.take_take, Nat.min_eq_left (htake _)]
  rw [hrest p src size, hrest _ (src.drop _), List.drop_take]

end WebSocketPacket

end LuaServer
