import LuaServer.Network.IkcpFrame

/-!
# IkcpDatagram — what `ikcp_flush` puts into datagrams is what `ikcp_input` takes out

A datagram is a sequence of whole segments, and `ikcp_input` takes one turn for each of them.
-/

open Reasoning

namespace LuaServer

/-! ## 1. Heads -/

/-- Numbers as byte strings of given widths, one behind the other. -/
def packFields (fields : List (Nat × Nat)) : List UInt8 :=
  fields.flatMap fun f => leBytes f.1 f.2

theorem packFields_length (fields : List (Nat × Nat)) :
    (packFields fields).length = (fields.map Prod.fst).sum := by
  simp only [packFields, List.length_flatMap, leBytes_length]

theorem decodeAt_packFields (before : List (Nat × Nat)) (width n : Nat)
    (behind : List (Nat × Nat)) (rest : List UInt8) :
    decodeAt (packFields (before ++ (width, n) :: behind) ++ rest) (before.map Prod.fst).sum width =
      UInt32.ofNat (n % 256 ^ width) := by
  have hsplit : packFields (before ++ (width, n) :: behind) ++ rest =
      packFields before ++ (leBytes width n ++ (packFields behind ++ rest)) := by
    simp only [packFields, List.flatMap_append, List.flatMap_cons, List.append_assoc]
  rw [decodeAt, hsplit, ← packFields_length, List.drop_left, List.take_left' (leBytes_length _ _),
    leNat_leBytes]

def IKCPSEG.fields (seg : IKCPSEG) : List (Nat × Nat) :=
  [(4, seg.conv.toNat), (1, seg.cmd.toNat), (1, seg.frg.toNat), (2, seg.wnd.toNat),
    (4, seg.ts.toNat), (4, seg.sn.toNat), (4, seg.una.toNat), (4, seg.data.length)]

theorem encode_eq_packFields (seg : IKCPSEG) : ikcp_encode_seg seg = packFields seg.fields := by
  simp only [ikcp_encode_seg, IKCPSEG.fields, packFields, List.flatMap_cons, List.flatMap_nil,
    List.append_nil, List.append_assoc]

@[simp] theorem encode_length (seg : IKCPSEG) : (ikcp_encode_seg seg).length = 24 := by
  rw [encode_eq_packFields, packFields_length]
  rfl

/-- A segment as it is in a datagram: its head and its data. -/
def IKCPSEG.wire (seg : IKCPSEG) : List UInt8 := ikcp_encode_seg seg ++ seg.data

/-- What is left of a segment in a datagram. -/
def IKCPSEG.onWire (seg : IKCPSEG) : IKCPSEG :=
  { seg with
    wnd := UInt32.ofNat (seg.wnd.toNat % 2 ^ 16)
    resendts := 0
    rto := 0
    fastack := 0
    xmit := 0 }

/-- The fields fit into the head, and the data into an `int`. -/
structure IKCPSEG.Fits (seg : IKCPSEG) : Prop where
  cmd : IKCPCB.IsCommand seg.cmd
  frg : seg.frg.toNat < 256
  len : seg.data.length < 2 ^ 31

namespace IKCPSEG

variable {seg : IKCPSEG} {rest : List UInt8}

theorem wire_length (seg : IKCPSEG) : seg.wire.length = 24 + seg.data.length := by
  rw [wire, List.length_append, encode_length]

theorem Fits.cmd_lt (h : seg.Fits) : seg.cmd.toNat < 256 := by
  rcases h.cmd with hc | hc | hc | hc <;> rw [hc] <;> decide

/-- A field of the head of the first segment. -/
theorem decodeAt_wire (before : List (Nat × Nat)) {behind : List (Nat × Nat)} {width n : Nat}
    (h : seg.fields = before ++ (width, n) :: behind) :
    decodeAt (seg.wire ++ rest) (before.map Prod.fst).sum width =
      UInt32.ofNat (n % 256 ^ width) := by
  rw [wire, encode_eq_packFields, h, List.append_assoc]
  exact decodeAt_packFields before width n behind _

theorem decodeAt_word (before : List (Nat × Nat)) {behind : List (Nat × Nat)} {n : UInt32}
    (h : seg.fields = before ++ (4, n.toNat) :: behind) :
    decodeAt (seg.wire ++ rest) (before.map Prod.fst).sum 4 = n := by
  have hn : n.toNat < 256 ^ 4 := n.toNat_lt
  rw [decodeAt_wire before h, Nat.mod_eq_of_lt hn, UInt32.ofNat_toNat]

theorem decodeAt_byte (before : List (Nat × Nat)) {behind : List (Nat × Nat)} {n : UInt32}
    (hn : n.toNat < 256)
    (h : seg.fields = before ++ (1, n.toNat) :: behind) :
    decodeAt (seg.wire ++ rest) (before.map Prod.fst).sum 1 = n := by
  rw [decodeAt_wire before h, Nat.pow_one, Nat.mod_eq_of_lt hn, UInt32.ofNat_toNat]

theorem Fits.decode_len (h : seg.Fits) :
    (decodeAt (seg.wire ++ rest) 20 4).toNat = seg.data.length := by
  have hlen := h.len
  have hdecode : decodeAt (seg.wire ++ rest) 20 4 = UInt32.ofNat (seg.data.length % 256 ^ 4) :=
    decodeAt_wire [(4, seg.conv.toNat), (1, seg.cmd.toNat), (1, seg.frg.toNat), (2, seg.wnd.toNat),
      (4, seg.ts.toNat), (4, seg.sn.toNat), (4, seg.una.toNat)] rfl
  rw [hdecode, UInt32.toNat_ofNat']
  omega

theorem drop_wire (seg : IKCPSEG) (rest : List UInt8) :
    (seg.wire ++ rest).drop (24 + seg.data.length) = rest :=
  List.drop_left' (wire_length seg)

/-- The first segment of a datagram is read as it was written. -/
theorem Fits.decode (h : seg.Fits) : decodeSegment (seg.wire ++ rest) = seg.onWire := by
  have hdata : ((seg.wire ++ rest).drop 24).take seg.data.length = seg.data := by
    rw [wire, List.append_assoc, List.drop_left' (encode_length seg), List.take_left]
  have hwnd : decodeAt (seg.wire ++ rest) 6 2 = UInt32.ofNat (seg.wnd.toNat % 2 ^ 16) :=
    decodeAt_wire [(4, seg.conv.toNat), (1, seg.cmd.toNat), (1, seg.frg.toNat)] rfl
  have hconv : decodeAt (seg.wire ++ rest) 0 4 = seg.conv := decodeAt_word [] rfl
  have hcmd : decodeAt (seg.wire ++ rest) 4 1 = seg.cmd :=
    decodeAt_byte [(4, seg.conv.toNat)] h.cmd_lt rfl
  have hfrg : decodeAt (seg.wire ++ rest) 5 1 = seg.frg :=
    decodeAt_byte [(4, seg.conv.toNat), (1, seg.cmd.toNat)] h.frg rfl
  have hts : decodeAt (seg.wire ++ rest) 8 4 = seg.ts :=
    decodeAt_word [(4, seg.conv.toNat), (1, seg.cmd.toNat), (1, seg.frg.toNat),
      (2, seg.wnd.toNat)] rfl
  have hsn : decodeAt (seg.wire ++ rest) 12 4 = seg.sn :=
    decodeAt_word [(4, seg.conv.toNat), (1, seg.cmd.toNat), (1, seg.frg.toNat),
      (2, seg.wnd.toNat), (4, seg.ts.toNat)] rfl
  have huna : decodeAt (seg.wire ++ rest) 16 4 = seg.una :=
    decodeAt_word [(4, seg.conv.toNat), (1, seg.cmd.toNat), (1, seg.frg.toNat),
      (2, seg.wnd.toNat), (4, seg.ts.toNat), (4, seg.sn.toNat)] rfl
  rw [decodeSegment, h.decode_len, hconv, hcmd, hfrg, hwnd, hts, hsn, huna, hdata]
  rfl

end IKCPSEG

/-! ## 2. `ikcp_input` on whole segments -/

/-- Whole segments, each with `P`. -/
def IsDatagram (P : IKCPSEG → Prop) (bytes : List UInt8) : Prop :=
  ∃ segs : List IKCPSEG, bytes = segs.flatMap IKCPSEG.wire ∧ ∀ seg ∈ segs, P seg

namespace IsDatagram

variable {P Q : IKCPSEG → Prop} {bytes : List UInt8}

theorem nil : IsDatagram P [] := ⟨[], rfl, fun _ h => nomatch h⟩

theorem mono (h : IsDatagram P bytes) (hPQ : ∀ seg, P seg → Q seg) : IsDatagram Q bytes := by
  obtain ⟨segs, hbytes, hsegs⟩ := h
  exact ⟨segs, hbytes, fun seg hseg => hPQ seg (hsegs seg hseg)⟩

theorem append_wire (h : IsDatagram P bytes) {seg : IKCPSEG} (hseg : P seg) :
    IsDatagram P (bytes ++ seg.wire) := by
  obtain ⟨segs, rfl, hsegs⟩ := h
  refine ⟨segs ++ [seg], ?_, ?_⟩
  · rw [List.flatMap_append, List.flatMap_singleton]
  · intro s hs
    rcases List.mem_append.mp hs with hs | hs
    · exact hsegs s hs
    · exact List.mem_singleton.mp hs ▸ hseg

end IsDatagram

namespace IKCPCB

/-- The turns of `ikcp_input` for a list of segments. -/
def inputSegments : IKCPCB × MaxAck → List IKCPSEG → IKCPCB × MaxAck :=
  List.foldl fun r seg => r.1.inputSegment r.2 seg.onWire

/-- A datagram of segments that fit is taken apart into these segments. -/
theorem inputLoop_segments {segs : List IKCPSEG} {kcp : IKCPCB}
    (hfits : ∀ seg ∈ segs, seg.Fits ∧ seg.conv = kcp.conv) (flag : MaxAck) {turns : Nat}
    (hturns : segs.length ≤ turns) :
    inputLoop turns kcp flag (segs.flatMap IKCPSEG.wire) =
      ((inputSegments (kcp, flag) segs).1, .ok (inputSegments (kcp, flag) segs).2) := by
  induction segs generalizing kcp flag turns with
  | nil =>
    cases turns with
    | zero => rfl
    | succ turns => rfl
  | cons seg segs ih =>
    obtain ⟨turns, rfl⟩ : ∃ k, turns = k + 1 := ⟨turns - 1, by simp at hturns; omega⟩
    obtain ⟨hseg, hconv⟩ := hfits seg List.mem_cons_self
    have hlen := IKCPSEG.wire_length seg
    have hdata := hseg.len
    rw [List.flatMap_cons, inputLoop, if_neg, hseg.decode, hseg.decode_len, if_neg, if_neg, if_neg]
    · show inputLoop turns _ _ (List.drop (24 + seg.data.length) _) = _
      rw [IKCPSEG.drop_wire]
      apply ih
      · intro s hs
        have hconv' : (kcp.inputSegment flag seg.onWire).1.conv = kcp.conv :=
          congrArg Settings.conv (inputSegment_only kcp flag seg.onWire).settings
        rw [hconv']
        exact hfits s (List.mem_cons_of_mem _ hs)
      · exact Nat.le_of_succ_le_succ hturns
    · exact not_not_intro hseg.cmd
    · rw [List.length_append, hlen, toInt32_of_lt hdata, show IKCP_OVERHEAD.toNat = 24 from rfl]
      omega
    · exact not_not_intro hconv
    · rw [List.length_append, hlen, show IKCP_OVERHEAD.toNat = 24 from rfl]
      omega

theorem length_le_flatMap_wire (segs : List IKCPSEG) :
    24 * segs.length ≤ (segs.flatMap IKCPSEG.wire).length := by
  induction segs with
  | nil => exact Nat.le_refl _
  | cons seg segs ih =>
    rw [List.flatMap_cons, List.length_append, IKCPSEG.wire_length, List.length_cons]
    omega

/-- A datagram with at least one segment is accepted. -/
theorem ikcp_input_segments {segs : List IKCPSEG} {kcp : IKCPCB}
    (hfits : ∀ seg ∈ segs, seg.Fits ∧ seg.conv = kcp.conv) (hne : segs ≠ []) :
    kcp.ikcp_input (segs.flatMap IKCPSEG.wire) =
      ((inputSegments (kcp, none) segs).1.afterLoop (inputSegments (kcp, none) segs).2
        kcp.snd_una, 0) := by
  have hpos := List.length_pos_iff.mpr hne
  have hlen := length_le_flatMap_wire segs
  rw [ikcp_input, if_neg (by rw [show IKCP_OVERHEAD.toNat = 24 from rfl]; omega),
    inputLoop_segments hfits none (by omega)]

/-! ## 3. The datagrams of `ikcp_flush` -/

namespace Output

variable {P : IKCPSEG → Prop} {o : Output} {mtu : Nat} {bytes : List UInt8} {seg : IKCPSEG}

/-- Everything that has been put is whole segments with `P`. -/
structure Holds (P : IKCPSEG → Prop) (o : Output) : Prop where
  buffer : IsDatagram P o.buffer
  datagrams : ∀ d ∈ o.datagrams, d ≠ [] ∧ IsDatagram P d

theorem Holds.mono {Q : IKCPSEG → Prop} (h : Holds P o) (hPQ : ∀ seg, P seg → Q seg) :
    Holds Q o :=
  ⟨h.buffer.mono hPQ, fun d hd => ⟨(h.datagrams d hd).1, (h.datagrams d hd).2.mono hPQ⟩⟩

theorem empty_holds : Holds P ⟨[], []⟩ := ⟨IsDatagram.nil, fun _ h => nomatch h⟩

theorem Holds.output (h : Holds P o) : Holds P o.output := by
  rw [Output.output]
  split
  · exact h
  · rename_i hne
    refine ⟨IsDatagram.nil, ?_⟩
    intro d hd
    rcases List.mem_append.mp hd with hd | hd
    · exact h.datagrams d hd
    · rw [List.mem_singleton.mp hd]
      exact ⟨hne, h.buffer⟩

theorem Holds.put (h : Holds P o) (mtu : Nat) (hseg : P seg) : Holds P (o.put mtu seg.wire) := by
  have hpart : Holds P (if mtu < o.buffer.length + seg.wire.length then o.output else o) := by
    split
    · exact h.output
    · exact h
  exact ⟨hpart.buffer.append_wire hseg, hpart.datagrams⟩

/-- No datagram is longer than `mtu`. -/
structure Bounded (mtu : Nat) (o : Output) : Prop where
  buffer : o.buffer.length ≤ mtu
  datagrams : ∀ d ∈ o.datagrams, d.length ≤ mtu

theorem Bounded.output (h : Bounded mtu o) : Bounded mtu o.output := by
  rw [Output.output]
  split
  · exact h
  · refine ⟨Nat.zero_le _, ?_⟩
    intro d hd
    rcases List.mem_append.mp hd with hd | hd
    · exact h.datagrams d hd
    · exact List.mem_singleton.mp hd ▸ h.buffer

theorem output_buffer (o : Output) : o.output.buffer = [] := by
  rw [Output.output]
  split
  · assumption
  · rfl

theorem Bounded.put (h : Bounded mtu o) (hbytes : bytes.length ≤ mtu) :
    Bounded mtu (o.put mtu bytes) := by
  rw [Output.put]
  split
  · refine ⟨?_, h.output.datagrams⟩
    rw [output_buffer]
    exact hbytes
  · refine ⟨?_, h.datagrams⟩
    show (o.buffer ++ bytes).length ≤ mtu
    rw [List.length_append]
    omega

end Output

end IKCPCB

end LuaServer
