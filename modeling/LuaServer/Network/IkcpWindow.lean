import LuaServer.Network.IkcpLink
import LuaServer.Reasoning.SerialWindow

/-!
# IkcpWindow — the window of what is received, whatever bytes arrive

What is in `rcv_buf` stands in the order of its numbers, counted from `rcv_nxt`, and lies in the window.
So a control block keeps no more segments than the window allows, and its counters are right.
-/

open Reasoning

namespace LuaServer

/-- Numbers in a window of `2 ^ 31` compare by their distances from its base. -/
theorem itimediff_of_offsets {a b base : UInt32} (ha : (a - base).toNat < 2 ^ 31)
    (hb : (b - base).toNat < 2 ^ 31) :
    _itimediff a b = ((a - base).toNat : Int) - (b - base).toNat := by
  have hdiff : (a - b).toNat = (2 ^ 32 + (a - base).toNat - (b - base).toNat) % 2 ^ 32 := by
    simp only [UInt32.toNat_sub]
    have hlta := a.toNat_lt
    have hltb := b.toNat_lt
    have hltc := base.toNat_lt
    omega
  rw [_itimediff, hdiff]
  unfold toInt32
  omega

namespace IKCPCB

variable {kcp kcp' : IKCPCB}

/-! ## 1. The queues of the receiver -/

def rcvOffset (kcp : IKCPCB) (seg : IKCPSEG) : Nat := (seg.sn - kcp.rcv_nxt).toNat

/-- The queues of the receiver and their counters. -/
structure RcvHeld (kcp : IKCPCB) : Prop where
  wnd_lt : kcp.rcv_wnd.toNat < 2 ^ 31
  nrcv_que : kcp.nrcv_que.toNat = kcp.rcv_queue.length
  queue_le : kcp.rcv_queue.length ≤ kcp.rcv_wnd.toNat
  nrcv_buf : kcp.nrcv_buf.toNat = kcp.rcv_buf.length
  window : InWindow kcp.rcvOffset kcp.rcv_wnd.toNat kcp.rcv_buf

/-- Besides, what is available has moved to `rcv_queue`, as far as there is room. -/
structure RcvSound (kcp : IKCPCB) : Prop extends RcvHeld kcp where
  moved : ∀ seg rest, kcp.rcv_buf = seg :: rest → seg.sn = kcp.rcv_nxt →
    kcp.rcv_wnd ≤ kcp.nrcv_que

/-- The fields of the receiver are the same. -/
def SameRcv (kcp kcp' : IKCPCB) : Prop :=
  kcp'.rcv_wnd = kcp.rcv_wnd ∧ kcp'.rcv_nxt = kcp.rcv_nxt ∧ kcp'.nrcv_que = kcp.nrcv_que ∧
    kcp'.nrcv_buf = kcp.nrcv_buf ∧ kcp'.rcv_queue = kcp.rcv_queue ∧ kcp'.rcv_buf = kcp.rcv_buf

theorem RcvSound.same (h : kcp.RcvSound) (hsame : kcp.SameRcv kcp') : kcp'.RcvSound := by
  obtain ⟨hwnd, hnxt, hnque, hnbuf, hqueue, hbuf⟩ := hsame
  have hoffset : kcp'.rcvOffset = kcp.rcvOffset := by
    funext seg
    rw [rcvOffset, rcvOffset, hnxt]
  refine ⟨⟨hwnd ▸ h.wnd_lt, ?_, ?_, ?_, ?_⟩, ?_⟩
  · rw [hnque, hqueue]
    exact h.nrcv_que
  · rw [hwnd, hqueue]
    exact h.queue_le
  · rw [hnbuf, hbuf]
    exact h.nrcv_buf
  · rw [hoffset, hwnd, hbuf]
    exact h.window
  · rw [hbuf, hnxt, hwnd, hnque]
    exact h.moved

theorem moveAvailable_sound {buf : List IKCPSEG}
    (h : ({ kcp with rcv_buf := buf } : IKCPCB).RcvHeld) : (kcp.moveAvailable buf).RcvSound := by
  induction buf generalizing kcp with
  | nil => exact { h with moved := fun _ _ heq => nomatch heq }
  | cons seg rest ih =>
    rw [moveAvailable]
    split
    · rename_i hcond
      apply ih
      have hcount : kcp.nrcv_que.toNat = kcp.rcv_queue.length := h.nrcv_que
      have hbuf : kcp.nrcv_buf.toNat = rest.length + 1 := h.nrcv_buf
      have hlt := UInt32.lt_iff_toNat_lt.mp hcond.2
      have hwnd : kcp.rcv_wnd.toNat < 2 ^ 31 := h.wnd_lt
      refine ⟨hwnd, ?_, ?_, ?_, ?_⟩
      · show (kcp.nrcv_que + 1).toNat = (kcp.rcv_queue ++ [seg]).length
        rw [UInt32.toNat_add, UInt32.toNat_one, List.length_append, List.length_singleton]
        omega
      · show (kcp.rcv_queue ++ [seg]).length ≤ kcp.rcv_wnd.toNat
        rw [List.length_append, List.length_singleton]
        omega
      · show (kcp.nrcv_buf - 1).toNat = rest.length
        have hbuflt := kcp.nrcv_buf.toNat_lt
        rw [UInt32.toNat_sub, UInt32.toNat_one]
        omega
      · have hsorted := List.pairwise_cons.mp h.window.sorted
        refine (h.window.sublist (List.sublist_cons_self seg rest)).rebase (d := 1) ?_
          (Nat.le_succ _)
        intro x hx
        -- only the segment that has moved is at the distance 0
        have hfirst : (seg.sn - kcp.rcv_nxt).toNat < (x.sn - kcp.rcv_nxt).toNat := hsorted.1 x hx
        show (x.sn - (kcp.rcv_nxt + 1)).toNat + 1 = (x.sn - kcp.rcv_nxt).toNat
        simp only [UInt32.toNat_sub, UInt32.toNat_add, UInt32.toNat_one] at hfirst ⊢
        have hltx := x.sn.toNat_lt
        have hltn := kcp.rcv_nxt.toNat_lt
        omega
    · rename_i hcond
      refine { h with moved := ?_ }
      rintro s rest' heq hsn
      injection heq with hhead _
      subst hhead
      exact UInt32.not_lt.mp fun hlt => hcond ⟨hsn, hlt⟩

/-- Where `insertBack` puts a segment: behind it are those with higher numbers. -/
theorem insertBack_eq_some {newseg : IKCPSEG} {buf buf' : List IKCPSEG}
    (h : insertBack newseg buf = some buf') :
    ∃ back front, buf = back ++ front ∧ buf' = back ++ newseg :: front ∧
      (∀ x ∈ back, x.sn ≠ newseg.sn ∧ ¬ 0 < _itimediff newseg.sn x.sn) ∧
      ∀ x rest, front = x :: rest → 0 < _itimediff newseg.sn x.sn := by
  induction buf generalizing buf' with
  | nil =>
    cases h
    exact ⟨[], [], rfl, rfl, fun _ hx => absurd hx List.not_mem_nil, fun _ _ heq => nomatch heq⟩
  | cons seg prev ih =>
    rw [insertBack] at h
    split at h
    · cases h
    rename_i hne
    split at h
    · rename_i hpos
      cases h
      refine ⟨[], seg :: prev, rfl, rfl, fun _ hx => absurd hx List.not_mem_nil, ?_⟩
      intro x rest heq
      rw [← (List.cons.inj heq).1]
      exact hpos
    · rename_i hpos
      obtain ⟨b, hb, rfl⟩ := Option.map_eq_some_iff.mp h
      obtain ⟨back, front, rfl, rfl, hback, hfront⟩ := ih hb
      refine ⟨seg :: back, front, rfl, rfl, ?_, hfront⟩
      rintro x hx
      rcases List.mem_cons.mp hx with rfl | hx
      · exact ⟨hne, hpos⟩
      · exact hback x hx

/-- A segment in the window keeps `rcv_buf` in order. -/
theorem insert_window {newseg : IKCPSEG} {buf : List IKCPSEG} (h : kcp.RcvHeld)
    (hnew : kcp.rcvOffset newseg < kcp.rcv_wnd.toNat)
    (hbuf : insertBack newseg kcp.rcv_buf.reverse = some buf) :
    InWindow kcp.rcvOffset kcp.rcv_wnd.toNat buf.reverse ∧
      buf.length = kcp.rcv_buf.length + 1 := by
  have hwnd := h.wnd_lt
  obtain ⟨back, front, hsplit, rfl, hback, hfront⟩ := insertBack_eq_some hbuf
  have hold : kcp.rcv_buf = front.reverse ++ back.reverse := by
    rw [← List.reverse_append, ← hsplit, List.reverse_reverse]
  have hwindow := hold ▸ h.window
  have hdiff (x : IKCPSEG) (hx : x ∈ kcp.rcv_buf) : _itimediff newseg.sn x.sn =
      (kcp.rcvOffset newseg : Int) - kcp.rcvOffset x := by
    have hlt := h.window.within x hx
    exact itimediff_of_offsets (Nat.lt_trans hnew hwnd) (Nat.lt_trans hlt hwnd)
  have hmem (x : IKCPSEG) (hx : x ∈ front ∨ x ∈ back) : x ∈ kcp.rcv_buf := by
    rw [hold, List.mem_append, List.mem_reverse, List.mem_reverse]
    exact hx
  constructor
  · rw [List.reverse_append, List.reverse_cons, List.append_assoc]
    apply hwindow.insert
    · -- the highest number in front is below the new one
      intro x hx
      rw [List.mem_reverse] at hx
      obtain ⟨y, rest, rfl⟩ := List.exists_cons_of_ne_nil (List.ne_nil_of_mem hx)
      have hy := hfront y rest rfl
      rw [hdiff y (hmem y (.inl List.mem_cons_self))] at hy
      have hle : kcp.rcvOffset x ≤ kcp.rcvOffset y := by
        rcases List.mem_cons.mp hx with rfl | hx
        · exact Nat.le_refl _
        · have hsorted := (List.pairwise_append.mp hwindow.sorted).1
          rw [List.reverse_cons, List.pairwise_append] at hsorted
          exact (hsorted.2.2 x (List.mem_reverse.mpr hx) y (List.mem_singleton_self y)).le
      omega
    · intro x hx
      rw [List.mem_reverse] at hx
      obtain ⟨hne, hle⟩ := hback x hx
      rw [hdiff x (hmem x (.inr hx))] at hle
      have hoffset : kcp.rcvOffset x ≠ kcp.rcvOffset newseg := by
        intro heq
        have hsub := UInt32.toNat_inj.mp heq
        exact hne (by
          have := congrArg (· + kcp.rcv_nxt) hsub
          simpa using this)
      omega
    · exact hnew
  · have hlen := congrArg List.length hsplit
    simp only [List.length_reverse, List.length_append] at hlen
    simp only [List.length_append, List.length_cons]
    omega

/-- The tests of `ikcp_input` and of `ikcp_parse_data` are those of the window. -/
theorem rcvOffset_lt (hwnd : kcp.rcv_wnd.toNat < 2 ^ 31) {sn : UInt32}
    (hwindow : _itimediff sn (kcp.rcv_nxt + kcp.rcv_wnd) < 0)
    (hnext : 0 ≤ _itimediff sn kcp.rcv_nxt) : (sn - kcp.rcv_nxt).toNat < kcp.rcv_wnd.toNat := by
  have hlt : (sn - kcp.rcv_nxt).toNat < 2 ^ 31 := by
    have hlt := (sn - kcp.rcv_nxt).toNat_lt
    rw [_itimediff] at hnext
    unfold toInt32 at hnext
    omega
  have hend : (kcp.rcv_nxt + kcp.rcv_wnd - kcp.rcv_nxt).toNat = kcp.rcv_wnd.toNat := by
    rw [UInt32.add_comm, UInt32.add_sub_cancel]
  rw [itimediff_of_offsets hlt (hend ▸ hwnd), hend] at hwindow
  omega

theorem ikcp_parse_data_sound (h : kcp.RcvSound) (seg : IKCPSEG) :
    (kcp.ikcp_parse_data seg).RcvSound := by
  rw [ikcp_parse_data]
  split
  · exact h
  rename_i hcond
  obtain ⟨hwindow, hnext⟩ := not_or.mp hcond
  split
  · rename_i buf hbuf
    have hnew := rcvOffset_lt h.wnd_lt (Int.not_le.mp hwindow) (Int.not_lt.mp hnext)
    obtain ⟨hinsert, hlen⟩ := insert_window h.toRcvHeld hnew hbuf
    have hle := hinsert.length_le
    have hwnd := h.wnd_lt
    apply moveAvailable_sound
    refine ⟨h.wnd_lt, h.nrcv_que, h.queue_le, ?_, hinsert⟩
    show (kcp.nrcv_buf + 1).toNat = buf.reverse.length
    rw [List.length_reverse] at hle ⊢
    rw [UInt32.toNat_add, UInt32.toNat_one, h.nrcv_buf]
    omega
  · exact moveAvailable_sound h.toRcvHeld

/-- Only the acknowledgements to send are different. -/
theorem ikcp_ack_push_sound (h : kcp.RcvSound) (sn ts : UInt32) :
    (kcp.ikcp_ack_push sn ts).RcvSound :=
  h.same ⟨rfl, rfl, rfl, rfl, rfl, rfl⟩

theorem AckOnly.rcvSound (h : kcp.AckOnly kcp') (hk : kcp.RcvSound) : kcp'.RcvSound := by
  obtain ⟨a, rfl⟩ := h
  exact hk.same ⟨rfl, rfl, rfl, rfl, rfl, rfl⟩

theorem FlushOnly.rcvSound (h : kcp.FlushOnly kcp') (hk : kcp.RcvSound) : kcp'.RcvSound := by
  obtain ⟨f, rfl⟩ := h
  exact hk.same ⟨rfl, rfl, rfl, rfl, rfl, rfl⟩

theorem QueueOnly.rcvSound (h : kcp.QueueOnly kcp') (hk : kcp.RcvSound) : kcp'.RcvSound := by
  obtain ⟨queue, count, rfl⟩ := h
  exact hk.same ⟨rfl, rfl, rfl, rfl, rfl, rfl⟩

theorem inputPush_sound (h : kcp.RcvSound) (seg : IKCPSEG) : (kcp.inputPush seg).RcvSound := by
  rw [inputPush]
  split
  · split
    · exact ikcp_parse_data_sound (ikcp_ack_push_sound h _ _) seg
    · exact ikcp_ack_push_sound h _ _
  · exact h

theorem inputSegment_rcvSound (kcp : IKCPCB) (flag : MaxAck) (seg : IKCPSEG) (h : kcp.RcvSound) :
    (kcp.inputSegment flag seg).1.RcvSound := by
  have hhead := (inputHead_only kcp seg).rcvSound h
  rw [inputSegment]
  generalize kcp.inputHead seg = k at hhead
  rw [inputCommand]
  split
  · dsimp only
    exact (inputAck_only k seg).rcvSound hhead
  split
  · dsimp only
    exact inputPush_sound hhead seg
  split
  · exact hhead.same ⟨rfl, rfl, rfl, rfl, rfl, rfl⟩
  · exact hhead

/-- Whatever bytes arrive. -/
theorem ikcp_input_rcvSound (h : kcp.RcvSound) (data : List UInt8) :
    (kcp.ikcp_input data).1.RcvSound :=
  ikcp_input_keeps inputSegment_rcvSound
    (fun k flag prev_una hk => (afterLoop_only k flag prev_una).rcvSound hk) h data

theorem merge_rest_length (queue : List IKCPSEG) : (merge queue).2.length ≤ queue.length := by
  induction queue with
  | nil => exact Nat.le_refl _
  | cons seg rest ih =>
    rw [merge]
    split
    · exact Nat.le_succ _
    · exact Nat.le_succ_of_le ih

theorem takeMessage_held (h : kcp.RcvHeld) : kcp.takeMessage.RcvHeld := by
  have hle := merge_rest_length kcp.rcv_queue
  have hqueue := h.queue_le
  have hcount := h.nrcv_que
  have hwnd := h.wnd_lt
  refine ⟨h.wnd_lt, ?_, hle.trans h.queue_le, h.nrcv_buf, h.window⟩
  show (kcp.nrcv_que - UInt32.ofNat (kcp.rcv_queue.length - (merge kcp.rcv_queue).2.length)).toNat =
    (merge kcp.rcv_queue).2.length
  rw [UInt32.toNat_sub, UInt32.toNat_ofNat']
  omega

theorem ikcp_recv_rcvSound (h : kcp.RcvSound) (len : Int) : (kcp.ikcp_recv len).1.RcvSound := by
  have hafter (k : IKCPCB) (hk : k.RcvHeld) (full : Bool) : (k.afterRecv full).RcvSound := by
    have hmoved : (k.moveAvailable k.rcv_buf).RcvSound := moveAvailable_sound hk
    rw [afterRecv, fastRecover]
    split
    · exact hmoved.same ⟨rfl, rfl, rfl, rfl, rfl, rfl⟩
    · exact hmoved
  rcases ikcp_recv_cases kcp len with ⟨code, -, heq⟩ | ⟨-, -, full, heq⟩
  · rw [heq]
    exact h
  · rw [heq]
    dsimp only
    split
    · exact hafter kcp h.toRcvHeld full
    · exact hafter _ (takeMessage_held h.toRcvHeld) full

end IKCPCB

end LuaServer
