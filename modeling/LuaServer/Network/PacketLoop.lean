import LuaServer.Network.MessageBuffer
import LuaServer.Reasoning.PacketReader

/-!
# PacketLoop — the loop that fills packets from the read buffer

`NetConnect::on_msgbuffer` and the second phase of `WebSocketConnect::on_msgbuffer` are one loop
over different packets: the head is read with what the packet needs of it, then the body with what
the head announces.  `PacketOps` are the operations of the packet, `body` is the loop body with
them, and `implements` shows that the loop on the buffer is a packet reader on the received bytes.
-/

open Reasoning

namespace LuaServer

structure PacketOps (P ε : Type*) where
  -- `createPacket()` and `wpos(0)`
  begin : P
  isHeadFull : P → Bool
  -- the packet, and the number of bytes taken of the `size` bytes at a pointer
  readHead : P → List UInt8 → Nat → P × Nat
  needsize : P → Int
  append : P → List UInt8 → P
  isComplete : P → Bool
  dispatch : P → List ε

namespace PacketOps

variable {P ε : Type*} {size : UInt32}

/-- The body of the loop, on the packet under construction and the report so far. -/
def body (o : PacketOps P ε) (s : (Option P × List ε) × MessageBuffer size) :
    (Option P × List ε) × MessageBuffer size :=
  let buffer := s.2
  let packet := s.1.1.getD o.begin
  if o.isHeadFull packet = false then
    -- read head
    let r := o.readHead packet buffer.getReadPointer (toUint32 buffer.getActiveSize)
    ((some r.1, s.1.2), buffer.readCompleted r.2)
  else
    -- read body
    let need := o.needsize packet
    let wsize : Int :=
      if 0 < need then
        toInt32 (if need.toNat ≤ buffer.getActiveSize then need else buffer.getActiveSize)
      else 0
    let packet' :=
      if 0 < wsize then o.append packet (buffer.getReadPointer.take wsize.toNat) else packet
    let buffer' := if 0 < wsize then buffer.readCompleted wsize.toNat else buffer
    -- new packet
    if o.isComplete packet' then ((none, s.1.2 ++ o.dispatch packet'), buffer')
    else ((some packet', s.1.2), buffer')

/-- What a turn reports is what the dispatch of a packet reports. -/
theorem mem_body {o : PacketOps P ε} {s : (Option P × List ε) × MessageBuffer size} {x : ε}
    (h : x ∈ (o.body s).1.2) : x ∈ s.1.2 ∨ ∃ p, x ∈ o.dispatch p := by
  unfold body at h
  extract_lets buffer packet head need wsize packet' buffer' at h
  by_cases hfull : o.isHeadFull packet = false
  · rw [if_pos hfull] at h
    exact .inl h
  rw [if_neg hfull] at h
  by_cases hcomplete : o.isComplete packet' = true
  · rw [if_pos hcomplete] at h
    rcases List.mem_append.mp h with h | h
    · exact .inl h
    · exact .inr ⟨packet', h⟩
  · rw [if_neg hcomplete] at h
    exact .inl h

def reader (o : PacketOps P ε) : PacketReader P ε UInt8 where
  create := o.begin
  headFull := o.isHeadFull
  readHead p bs := ((o.readHead p bs bs.length).1, bs.drop (o.readHead p bs bs.length).2)
  needsize := o.needsize
  append := o.append
  complete := o.isComplete
  dispatch := o.dispatch

/-- The `int32` arithmetic of the body comes to the minimum of the two lengths. -/
theorem body_append {o : PacketOps P ε} {c : Option P × List ε} {b : MessageBuffer size} {p : P}
    {k : Nat} (hb : b.InBounds) (hp : c.1.getD o.begin = p) (hh : o.isHeadFull p = true)
    (hneed : o.needsize p < 2 ^ 31) (hnil : o.append p [] = p)
    (hk : min (o.needsize p).toNat b.active.length = k) :
    o.body (c, b) =
      if o.isComplete (o.append p (b.active.take k)) then
        ((none, c.2 ++ o.dispatch (o.append p (b.active.take k))), b.readCompleted k)
      else ((some (o.append p (b.active.take k)), c.2), b.readCompleted k) := by
  have hlen := hb.active_length
  have hlt := hb.getActiveSize_lt
  have hkle : k ≤ b.getActiveSize := by omega
  have hwsize : (if 0 < o.needsize p then
      toInt32 (if (o.needsize p).toNat ≤ b.getActiveSize then o.needsize p else b.getActiveSize)
      else 0) = (k : Int) := by
    rw [← hk, hlen]
    split
    · rw [toInt32_of_bounds] <;> split <;> omega
    · omega
  have hpacket : (if 0 < (k : Int) then
      o.append p (b.getReadPointer.take (k : Int).toNat) else p) =
        o.append p (b.active.take k) := by
    rw [Int.toNat_natCast, b.getReadPointer_take hkle]
    split
    · rfl
    · rw [show k = 0 by omega, List.take_zero, hnil]
  have hbuffer : (if 0 < (k : Int) then b.readCompleted (k : Int).toNat else b) =
      b.readCompleted k := by
    rw [Int.toNat_natCast]
    split
    · rfl
    · rw [show k = 0 by omega]
      rfl
  simp only [body, hp, hh, Bool.true_eq_false, if_false, hwsize, hpacket, hbuffer]

/-- The loop on the read buffer is the packet reader on the received bytes. -/
theorem implements (o : PacketOps P ε)
    (htake : ∀ p src n, o.isHeadFull p = false →
      o.readHead p src n = o.readHead p (src.take n) n)
    (hle : ∀ p src, o.isHeadFull p = false → src ≠ [] →
      (o.readHead p src src.length).2 ≤ src.length)
    (hneed : ∀ p, o.needsize p < 2 ^ 31) (hnil : ∀ p, o.append p [] = p) :
    Implements (@body P ε size o) o.reader.turn := by
  intro c b hb hpos
  have hlen := hb.active_length
  have hlt := hb.getActiveSize_lt
  obtain ⟨p, hp⟩ : ∃ p : P, c.1.getD o.begin = p := ⟨_, rfl⟩
  cases hh : o.isHeadFull p with
  | false =>
    -- the head is read with what it needs of the active bytes
    have hne : b.active ≠ [] := List.length_pos_iff.mp (hlen ▸ hpos)
    have hread : o.readHead p b.getReadPointer b.getActiveSize =
        o.readHead p b.active b.active.length := by
      rw [htake p _ _ hh, hlen]
      rfl
    rw [PacketReader.turn_head (R := o.reader) hp hh]
    refine ⟨(o.readHead p b.active b.active.length).2, hle p _ hh hne, ?_, rfl⟩
    simp only [body, hp, hh, if_true, toUint32_of_lt hlt, hread, reader]
  | true =>
    obtain ⟨k, hk⟩ : ∃ k, min (o.needsize p).toNat b.active.length = k := ⟨_, rfl⟩
    have hkle : k ≤ b.active.length := by omega
    refine ⟨k, hkle, ?_, PacketReader.turn_body_rest (R := o.reader) hp hh _ hk⟩
    rw [body_append hb hp hh (hneed p) (hnil p) hk,
      PacketReader.turn_body (R := o.reader) hp hh b.active hk]
    by_cases hc : o.isComplete (o.append p (b.active.take k)) = true
    · have hc' : o.reader.complete (o.reader.append p (b.active.take k)) = true := hc
      rw [if_pos hc, if_pos hc']
      rfl
    · have hc' : ¬ o.reader.complete (o.reader.append p (b.active.take k)) = true := hc
      rw [if_neg hc, if_neg hc']
      rfl

/-! ## Turns that make progress -/

/-- The turn uses up a byte or delivers a packet. -/
def Progresses (o : PacketOps P ε) (p : (Option P × List ε) × MessageBuffer size) : Prop :=
  p.2.rpos < (o.body p).2.rpos ∨ p.1.2.length < (o.body p).1.2.length

section
variable {o : PacketOps P ε} (himp : Implements (@body P ε size o) o.reader.turn)
  (hR : o.reader.Lawful) (hadv : o.reader.Advances)

include himp hR hadv

theorem progresses_iff_moves {p : (Option P × List ε) × MessageBuffer size} (hb : p.2.InBounds)
    (hpos : 0 < p.2.getActiveSize) : o.Progresses p ↔ o.body p ≠ p := by
  obtain ⟨c, b⟩ := p
  obtain ⟨k, hk, hbody, hrest⟩ := himp c b hb hpos
  constructor
  · intro hprog heq
    rw [Progresses, heq] at hprog
    omega
  · intro hmove
    -- a turn without progress neither moves the cursor nor reports anything
    by_contra hprog
    rw [Progresses, hbody] at hprog
    push Not at hprog
    obtain ⟨hk0, hcalls⟩ := hprog
    obtain rfl : k = 0 := by
      change b.rpos + k ≤ b.rpos at hk0
      omega
    have hne : b.active ≠ [] := by
      rw [← hb.active_length] at hpos
      exact List.length_pos_iff.mp hpos
    rcases hR.turn_cases hadv c hne with hlt | ⟨q, -, hturn⟩ | hturn
    · rw [hrest, List.drop_zero] at hlt
      exact absurd hlt (lt_irrefl _)
    · rw [hturn] at hcalls
      have hreport := List.length_pos_iff.mpr (hadv.dispatch_ne_nil q)
      change (c.2 ++ o.reader.dispatch q).length ≤ c.2.length at hcalls
      rw [List.length_append] at hcalls
      omega
    · exact hmove (by rw [hbody, hturn]; rfl)

/-- The loop on a buffer in bounds ends when all its turns make progress. -/
theorem halts_iff_progresses {p : (Option P × List ε) × MessageBuffer size} (hb : p.2.InBounds) :
    Halts (fun q => decide (0 < q.2.getActiveSize)) o.body p ↔
      ∀ q, Turns (fun q => decide (0 < q.2.getActiveSize)) o.body p q →
        0 < q.2.getActiveSize → o.Progresses q := by
  have hkeep : ∀ q : (Option P × List ε) × MessageBuffer size, q.2.InBounds →
      decide (0 < q.2.getActiveSize) = true → (o.body q).2.InBounds :=
    fun q hq hc => (himp.keeps _ q ⟨hq, rfl⟩ hc).1
  -- a packet under construction counts half a byte: delivering it uses up nothing else
  rw [halts_iff_moves (fun q => q.2.InBounds)
    (fun q => 2 * q.2.active.length + if q.1.1.isSome then 1 else 0) ?_ hb]
  · refine forall_congr' fun q => forall_congr' fun hq => ?_
    have hqb := hq.invariant hkeep hb
    rw [decide_eq_true_eq]
    exact forall_congr' fun hpos => (progresses_iff_moves himp hR hadv hqb hpos).symm
  · rintro ⟨c, b⟩ hb hc
    refine ⟨hkeep _ hb hc, ?_⟩
    have hpos : 0 < b.getActiveSize := by simpa using hc
    have hne : b.active ≠ [] := List.length_pos_iff.mp (hb.active_length ▸ hpos)
    obtain ⟨k, hk, hbody, hrest⟩ := himp c b hb hpos
    have hactive : (b.readCompleted k).active = b.active.drop k := hb.readCompleted_active hk
    rw [hbody]
    rcases hR.turn_cases hadv c hne with hlt | ⟨q, hq, hturn⟩ | hturn
    · rw [hrest, ← hactive] at hlt
      apply Or.inl
      change 2 * (b.readCompleted k).active.length + _ < 2 * b.active.length + _
      split <;> split <;> omega
    · rw [hturn] at hrest ⊢
      have hlen : (b.readCompleted k).active.length = b.active.length := by
        rw [hactive, ← hrest]
      apply Or.inl
      simp [hlen, hq]
    · have hk0 : k = 0 := by
        rw [hturn] at hrest
        have hlen : b.active.length = (b.active.drop k).length := congrArg List.length hrest
        rw [List.length_drop] at hlen
        have := List.length_pos_iff.mpr hne
        omega
      subst hk0
      exact .inr (by rw [hturn]; rfl)

end

end PacketOps

end LuaServer
