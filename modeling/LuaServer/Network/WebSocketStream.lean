import LuaServer.Network.WebSocketFraming

/-!
# WebSocketStream — what the frame loop makes of any bytes

From between two frames the loop goes through its input frame by frame: a head, and as many bytes
as the connection reads for its length.  A frame is dispatched when its body is there, one without
a body when another byte is there.  A head whose length is read as a negative number, or as one that
does not fit into an `int` with 14 added, is never left.
-/

open Reasoning

namespace LuaServer

open WebSocketPacket

/-- A length that the connection can wait for. -/
def FrameHead.Good (h : FrameHead) : Prop := 0 ≤ h.mark ∧ h.mark < 2 ^ 31 - 14

instance (h : FrameHead) : Decidable h.Good :=
  inferInstanceAs (Decidable (0 ≤ h.mark ∧ h.mark < 2 ^ 31 - 14))

/-- A frame as the connection reads it. -/
structure ReadFrame where
  head : FrameHead
  body : List UInt8
  good : head.Good
  length_eq : (body.length : Int) = head.mark

namespace ReadFrame

def bytes (f : ReadFrame) : List UInt8 := f.head.bytes ++ f.body

def opcode (f : ReadFrame) : Nat := f.head.first.toNat % 16

def packet (f : ReadFrame) : WebSocketPacket := f.head.packet.append f.body

theorem packet_dispatch (f : ReadFrame) :
    f.packet.dispatch = if f.opcode = 8 then [.close] else [.onMsg f.packet.decoded] := by
  have hop : f.packet.getOpcode.toNat = f.opcode := FrameHead.getOpcode_toNat f.head.packet_head
  rw [dispatch_eq, hop]

end ReadFrame

/-- The input begins with a frame that the loop dispatches, and goes on with `rest`. -/
def Completes (bs : List UInt8) (f : ReadFrame) (rest : List UInt8) : Prop :=
  bs = f.bytes ++ rest ∧ (f.body ≠ [] ∨ rest ≠ [])

/-- The input begins with a head that is never left, with what is read for it, and with at least
one more byte. -/
def Hangs (bs : List UInt8) : Prop :=
  ∃ (h : FrameHead) (body rest : List UInt8), bs = h.bytes ++ (body ++ rest) ∧ ¬ h.Good ∧
    body.length = h.mark.toNat ∧ rest ≠ []

theorem Completes.unique {bs rest rest' : List UInt8} {f f' : ReadFrame}
    (h : Completes bs f rest) (h' : Completes bs f' rest') : f = f' ∧ rest = rest' := by
  obtain ⟨head, body, good, hlen⟩ := f
  obtain ⟨head', body', good', hlen'⟩ := f'
  have heq : head.bytes ++ (body ++ rest) = head'.bytes ++ (body' ++ rest') := by
    rw [← List.append_assoc, ← List.append_assoc]
    exact h.1.symm.trans h'.1
  obtain ⟨rfl, htail⟩ := FrameHead.bytes_append_inj heq
  obtain ⟨rfl, rfl⟩ := List.append_inj htail (by omega)
  exact ⟨rfl, rfl⟩

theorem Completes.not_hangs {bs rest : List UInt8} {f : ReadFrame} (h : Completes bs f rest) :
    ¬ Hangs bs := by
  intro hhangs
  obtain ⟨head, body, rest', heq, hbad, -, -⟩ := hhangs
  have hbytes : f.head.bytes ++ (f.body ++ rest) = head.bytes ++ (body ++ rest') := by
    rw [← List.append_assoc]
    exact h.1.symm.trans heq
  obtain ⟨rfl, -⟩ := FrameHead.bytes_append_inj hbytes
  exact hbad f.good

theorem Completes.length_lt {bs rest : List UInt8} {f : ReadFrame} (h : Completes bs f rest) :
    rest.length < bs.length := by
  rw [h.1, ReadFrame.bytes, List.length_append, List.length_append]
  change rest.length < (f.head.extra.length + 1 + 1) + f.body.length + rest.length
  omega

/-! ## 1. The turn on a body -/

namespace FrameHead

variable (h : FrameHead) {tr : List WebSocketReaction} {body rest : List UInt8}

theorem append_isHeadFull (body : List UInt8) : (h.packet.append body).isHeadFull = true := by
  apply (isHeadFull_iff _).mpr
  change 14 ≤ h.packet.wpos + body.length
  rw [packet_wpos]
  omega

theorem append_isComplete_iff (hle : body.length ≤ h.mark.toNat) :
    (h.packet.append body).isComplete = true ↔ h.Good ∧ (body.length : Int) = h.mark := by
  have hbounds := h.mark_bounds
  have hw : (h.packet.append body).wpos = 14 + body.length := by
    rw [← h.packet_wpos]
    rfl
  rw [isComplete, decide_eq_true_eq, frameEnd, append_getMarkLen _ _ h.packet_wpos.ge,
    packet_getMarkLen, hw, Good]
  simp only [toSizeT, toInt32, WS_MAX_HEAD_SIZE]
  omega

theorem append_needsize (hle : body.length ≤ h.mark.toNat) :
    (h.packet.append body).needsize ≤ 0 ↔ h.mark.toNat ≤ body.length := by
  have hbounds := h.mark_bounds
  by_cases hnil : body = []
  · subst hnil
    rw [append_nil, packet_needsize, List.length_nil]
    omega
  · have hpos := List.length_pos_iff.mpr hnil
    rw [WebSocketPacket.append_needsize _ _ h.packet_wpos.ge
      (by rw [packet_needsize]; omega), packet_needsize]
    omega

/-- What the turn on a body takes of the input. -/
theorem turn_body (bs : List UInt8) {k : Nat} (hk : min h.mark.toNat bs.length = k) :
    frameReader.turn (some h.packet, tr) bs =
      if h.Good ∧ (k : Int) = h.mark then
        ((none, tr ++ (h.packet.append (bs.take k)).dispatch), bs.drop k)
      else ((some (h.packet.append (bs.take k)), tr), bs.drop k) := by
  have hneed : min (frameReader.needsize h.packet).toNat bs.length = k := by
    rw [← hk, ← h.packet_needsize]
    rfl
  have hlen : (bs.take k).length = k := by
    rw [List.length_take]
    omega
  have hcomplete := h.append_isComplete_iff (show (bs.take k).length ≤ _ by omega)
  rw [hlen] at hcomplete
  rw [PacketReader.turn_body (p := h.packet) rfl h.packet_isHeadFull bs hneed]
  by_cases hgood : h.Good ∧ (k : Int) = h.mark
  · rw [if_pos hgood]
    exact if_pos (hcomplete.mpr hgood)
  · rw [if_neg hgood]
    exact if_neg fun hc => hgood (hcomplete.mp hc)

/-- A packet that needs nothing and is not complete is turned for ever. -/
theorem turn_stuck (hbad : ¬ h.Good) (hlen : body.length = h.mark.toNat) (rest : List UInt8) :
    frameReader.turn (some (h.packet.append body), tr) rest =
      ((some (h.packet.append body), tr), rest) := by
  have hneed := (h.append_needsize hlen.le).mpr hlen.ge
  have hk : min (frameReader.needsize (h.packet.append body)).toNat rest.length = 0 := by
    change min (h.packet.append body).needsize.toNat rest.length = 0
    omega
  rw [PacketReader.turn_body (p := h.packet.append body) rfl (h.append_isHeadFull body) rest hk,
    List.take_zero, List.drop_zero]
  have hnil : frameReader.append (h.packet.append body) [] = h.packet.append body := append_nil _
  rw [hnil]
  apply if_neg
  intro hc
  exact hbad ((h.append_isComplete_iff hlen.le).mp hc).1

end FrameHead

/-! ## 2. The beginning of the input -/

variable {tr : List WebSocketReaction} {t : WebSocketFrames} {bs rest : List UInt8} {f : ReadFrame}
  {P : List WebSocketReaction → Prop}

theorem ReadFrame.turn_body (f : ReadFrame) (rest : List UInt8) :
    frameReader.turn (some f.head.packet, tr) (f.body ++ rest) =
      ((none, tr ++ f.packet.dispatch), rest) := by
  have hlen := f.length_eq
  have hk : min f.head.mark.toNat (f.body ++ rest).length = f.body.length := by
    rw [List.length_append]
    omega
  rw [f.head.turn_body (f.body ++ rest) hk, if_pos ⟨f.good, hlen⟩, List.take_left, List.drop_left]
  rfl

theorem Completes.turns (h : Completes bs f rest) (tr : List WebSocketReaction) :
    bs ≠ [] ∧ frameReader.turn (none, tr) bs = ((some f.head.packet, tr), f.body ++ rest) ∧
      f.body ++ rest ≠ [] := by
  have hbytes : bs = f.head.bytes ++ (f.body ++ rest) := by
    rw [h.1, ReadFrame.bytes, List.append_assoc]
  refine ⟨?_, ?_, ?_⟩
  · rw [hbytes]
    exact List.cons_ne_nil _ _
  · rw [hbytes]
    exact f.head.turn_eq _
  · intro hnil
    obtain ⟨hb, hr⟩ := List.append_eq_nil_iff.mp hnil
    rcases h.2 with hne | hne
    · exact hne hb
    · exact hne hr

/-- A frame that completes is dispatched, and the loop goes on with what follows it. -/
theorem Completes.feeds_iff (h : Completes bs f rest) :
    Feeds frameReader.turn (none, tr) bs t ↔
      Feeds frameReader.turn (none, tr ++ f.packet.dispatch) rest t := by
  obtain ⟨hbs, hhead, hbody⟩ := h.turns tr
  rw [feeds_turn_iff hbs, hhead, feeds_turn_iff hbody, f.turn_body]

theorem Completes.throughout_iff (h : Completes bs f rest) :
    Throughout frameReader.turn (fun s => P s.2) (none, tr) bs ↔
      P tr ∧ Throughout frameReader.turn (fun s => P s.2) (none, tr ++ f.packet.dispatch) rest := by
  obtain ⟨hbs, hhead, hbody⟩ := h.turns tr
  rw [throughout_turn_iff hbs, hhead, throughout_turn_iff hbody, f.turn_body]
  simp only [and_self_left]

/-- A head that is never left: two turns lead to a state that the next turn does not change. -/
theorem Hangs.turns (h : Hangs bs) (tr : List WebSocketReaction) :
    ∃ p q bs' rest, bs ≠ [] ∧ frameReader.turn (none, tr) bs = ((some p, tr), bs') ∧ bs' ≠ [] ∧
      frameReader.turn (some p, tr) bs' = ((some q, tr), rest) ∧ rest ≠ [] ∧
      frameReader.turn (some q, tr) rest = ((some q, tr), rest) := by
  obtain ⟨head, body, rest, rfl, hbad, hlen, hrest⟩ := h
  have hk : min head.mark.toNat (body ++ rest).length = body.length := by
    rw [List.length_append]
    omega
  refine ⟨head.packet, head.packet.append body, body ++ rest, rest, List.cons_ne_nil _ _,
    head.turn_eq _, by simp [hrest], ?_, hrest, head.turn_stuck hbad hlen rest⟩
  rw [head.turn_body (body ++ rest) hk, if_neg fun hgood => hbad hgood.1, List.take_left,
    List.drop_left]

theorem Hangs.not_feeds (h : Hangs bs) : ¬ ∃ t, Feeds frameReader.turn (none, tr) bs t := by
  obtain ⟨p, q, bs', rest, hbs, hhead, hbs', hbody, hrest, hstuck⟩ := h.turns tr
  simp only [feeds_turn_iff hbs, hhead, feeds_turn_iff hbs', hbody]
  exact not_feeds_of_stuck hrest hstuck

theorem Hangs.throughout (h : Hangs bs) (htr : P tr) :
    Throughout frameReader.turn (fun s => P s.2) (none, tr) bs := by
  obtain ⟨p, q, bs', rest, hbs, hhead, hbs', hbody, -, hstuck⟩ := h.turns tr
  rw [throughout_turn_iff hbs, hhead, throughout_turn_iff hbs', hbody, throughout_stuck_iff hstuck]
  exact ⟨htr, htr, htr⟩

/-! ## 3. Input that the loop waits behind -/

/-- The loop uses the input up and dispatches nothing. -/
structure Idles (packet : Option WebSocketPacket) (tr : List WebSocketReaction)
    (bs : List UInt8) : Prop where
  feeds : ∃ p, Feeds frameReader.turn (packet, tr) bs (p, tr)
  throughout : ∀ P : List WebSocketReaction → Prop, P tr →
    Throughout frameReader.turn (fun s => P s.2) (packet, tr) bs

theorem idles_nil (packet : Option WebSocketPacket) : Idles packet tr [] where
  feeds := ⟨packet, feeds_nil_iff.mpr rfl⟩
  throughout _ htr := throughout_nil_iff.mpr htr

theorem idles_turn {packet packet' : Option WebSocketPacket} {bs' : List UInt8} (hbs : bs ≠ [])
    (hturn : frameReader.turn (packet, tr) bs = ((packet', tr), bs')) (h : Idles packet' tr bs') :
    Idles packet tr bs := by
  obtain ⟨p, hfeeds⟩ := h.feeds
  refine ⟨⟨p, ?_⟩, ?_⟩
  · rw [feeds_turn_iff hbs, hturn]
    exact hfeeds
  · intro P htr
    rw [throughout_turn_iff hbs, hturn]
    exact ⟨htr, h.throughout P htr⟩

/-- Behind a head, less than a body: the bytes are kept. -/
theorem FrameHead.idles_body (h : FrameHead)
    (hc : ¬ ∃ f rest', Completes (h.bytes ++ rest) f rest') (hh : ¬ Hangs (h.bytes ++ rest)) :
    Idles (some h.packet) tr rest := by
  by_cases hrest : rest = []
  · rw [hrest]
    exact idles_nil _
  have hsplit := List.take_append_drop h.mark.toNat rest
  have hshort : rest.length ≤ h.mark.toNat ∧ ¬ (h.Good ∧ (rest.length : Int) = h.mark) := by
    by_cases hgood : h.Good
    · -- a body that is there would make the frame complete
      have hlt : ¬ h.mark.toNat ≤ rest.length := by
        intro hle
        have hmark := hgood.1
        have hlen : ((rest.take h.mark.toNat).length : Int) = h.mark := by
          rw [List.length_take]
          omega
        apply hc
        refine ⟨⟨h, rest.take h.mark.toNat, hgood, hlen⟩, rest.drop h.mark.toNat, ?_, ?_⟩
        · rw [ReadFrame.bytes, List.append_assoc, hsplit]
        · by_contra hnil
          push Not at hnil
          obtain ⟨hbody, hdrop⟩ := hnil
          change rest.take h.mark.toNat = [] at hbody
          rw [hbody, hdrop] at hsplit
          exact hrest hsplit.symm
      exact ⟨by omega, fun hfull => by omega⟩
    · -- one more byte would be turned for ever
      refine ⟨?_, fun hfull => hgood hfull.1⟩
      by_contra hlt
      apply hh
      refine ⟨h, rest.take h.mark.toNat, rest.drop h.mark.toNat, by rw [hsplit], hgood, ?_, ?_⟩
      · rw [List.length_take]
        omega
      · intro hnil
        have := List.drop_eq_nil_iff.mp hnil
        omega
  have hturn := @FrameHead.turn_body h tr rest rest.length (by omega)
  rw [if_neg hshort.2, List.drop_length] at hturn
  exact idles_turn hrest hturn (idles_nil _)

/-- Input that neither completes a frame nor hangs is waited behind. -/
theorem idles_of_not (hc : ¬ ∃ f rest, Completes bs f rest) (hh : ¬ Hangs bs) :
    Idles none tr bs := by
  by_cases hbs : bs = []
  · rw [hbs]
    exact idles_nil none
  rcases FrameHead.head_or_short bs hbs with ⟨head, rest, rfl⟩ | hshort
  · exact idles_turn hbs (head.turn_eq rest) (head.idles_body hc hh)
  · obtain ⟨p, hturn⟩ := hshort tr
    exact idles_turn hbs hturn (idles_nil _)

/-- Where no frame completes, whatever holds of the report holds at every turn. -/
theorem throughout_of_not_completes (hc : ¬ ∃ f rest, Completes bs f rest) (htr : P tr) :
    Throughout frameReader.turn (fun s => P s.2) (none, tr) bs := by
  by_cases hh : Hangs bs
  · exact hh.throughout htr
  · exact (idles_of_not hc hh).throughout P htr

end LuaServer
