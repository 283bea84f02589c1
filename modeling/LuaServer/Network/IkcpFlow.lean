import LuaServer.Network.IkcpDatagram
import LuaServer.Reasoning.SelectiveRepeat
import Mathlib.Data.List.TakeWhile

/-!
# IkcpFlow — a control block as a sender and a receiver

The two halves of a control block take part in two transfers, one in each direction.  Every function
of `ikcp.cpp` is a run of steps of these transfers, as long as fewer than `2 ^ 31` segments have been
sent: then the numbers of the segments compare like the positions that they stand for.
-/

open Reasoning

namespace LuaServer

/-! ## 1. Numbers and halves -/

theorem itimediff_eq {a b : UInt32} (ha : a.toNat < 2 ^ 31) (hb : b.toNat < 2 ^ 31) :
    _itimediff a b = (a.toNat : Int) - b.toNat := by
  rw [_itimediff, UInt32.toNat_sub]
  unfold toInt32
  omega

/-- What a segment carries. -/
structure Fragment where
  frg : UInt32
  data : List UInt8
deriving DecidableEq

/-- What stays the same of a segment once it has a number. -/
structure Numbered where
  conv : UInt32
  cmd : UInt32
  sn : UInt32
  fragment : Fragment
deriving DecidableEq

def IKCPSEG.fragment (seg : IKCPSEG) : Fragment := ⟨seg.frg, seg.data⟩

def IKCPSEG.numbered (seg : IKCPSEG) : Numbered := ⟨seg.conv, seg.cmd, seg.sn, seg.fragment⟩

structure Sending where
  conv : UInt32
  snd_nxt : UInt32
  queue : List Fragment
  buf : List Numbered

structure Receiving where
  rcv_nxt : UInt32
  nrcv_que : UInt32
  queue : List Fragment
  buf : List Numbered
  acks : List UInt32

namespace IKCPCB

def sending (kcp : IKCPCB) : Sending :=
  ⟨kcp.conv, kcp.snd_nxt, kcp.snd_queue.map IKCPSEG.fragment, kcp.snd_buf.map IKCPSEG.numbered⟩

def receiving (kcp : IKCPCB) : Receiving :=
  ⟨kcp.rcv_nxt, kcp.nrcv_que, kcp.rcv_queue.map IKCPSEG.fragment,
    kcp.rcv_buf.map IKCPSEG.numbered, kcp.acklist.map Prod.fst⟩

end IKCPCB

/-- The sending half stands where the sender of `t` stands. -/
structure Sending.Stands (v : Sending) (t : Transfer Fragment) : Prop where
  next : v.snd_nxt.toNat = t.sent.length
  waiting : v.queue = t.waiting
  buf : ∀ s ∈ v.buf, s.conv = v.conv ∧ s.cmd = IKCP_CMD_PUSH ∧
    t.sent[s.sn.toNat]? = some s.fragment
  pending : ∀ i ∈ t.pending, ∃ s ∈ v.buf, s.sn.toNat = i

/-- The receiving half stands where the receiver of `t` stands. -/
structure Receiving.Stands (v : Receiving) (t : Transfer Fragment) : Prop where
  next : v.rcv_nxt.toNat = t.expected
  ready : v.queue = t.ready
  counted : v.nrcv_que.toNat = v.queue.length
  buf : ∀ s ∈ v.buf, t.Has s.sn.toNat ∧ t.sent[s.sn.toNat]? = some s.fragment
  early : ∀ i ∈ t.early, ∃ s ∈ v.buf, s.sn.toNat = i
  owed : ∀ sn ∈ v.acks, t.Has sn.toNat

/-- Fewer than `2 ^ 31` segments. -/
def Few (t : Transfer Fragment) : Prop := t.sent.length + t.waiting.length < 2 ^ 31

/-- The fragments fit into segments. -/
def FitsAll (t : Transfer Fragment) : Prop :=
  ∀ f ∈ t.sent ++ t.waiting, f.frg.toNat < 128 ∧ f.data.length < 2 ^ 31

/-- What a segment tells the peer is true: `t` is the transfer to the peer, `u` the one from it. -/
structure IKCPSEG.Honest (conv : UInt32) (t u : Transfer Fragment) (seg : IKCPSEG) : Prop where
  fits : seg.Fits
  conv_eq : seg.conv = conv
  push : seg.cmd = IKCP_CMD_PUSH → t.sent[seg.sn.toNat]? = some seg.fragment
  una : seg.una.toNat ≤ u.expected
  ack : seg.cmd = IKCP_CMD_ACK → u.Has seg.sn.toNat

section
variable {conv : UInt32} {t t' u u' : Transfer Fragment} {seg : IKCPSEG} {v v' : Sending}

theorem lt_length_of_getElem? {α : Type*} {l : List α} {i : ℕ} {x : α} (h : l[i]? = some x) :
    i < l.length :=
  (List.getElem?_eq_some_iff.mp h).1

theorem getElem?_of_prefix {α : Type*} {l l' : List α} {i : ℕ} {x : α} (hpre : l <+: l')
    (h : l[i]? = some x) : l'[i]? = some x := by
  obtain ⟨rest, rfl⟩ := hpre
  rwa [List.getElem?_append_left (lt_length_of_getElem? h)]

theorem IKCPSEG.Honest.mono (h : seg.Honest conv t u) (ht : t.sent <+: t'.sent)
    (hu : u.expected ≤ u'.expected) (hhas : ∀ i, u.Has i → u'.Has i) : seg.Honest conv t' u' where
  fits := h.fits
  conv_eq := h.conv_eq
  push := fun hcmd => getElem?_of_prefix ht (h.push hcmd)
  una := h.una.trans hu
  ack := fun hcmd => hhas _ (h.ack hcmd)

/-! ## 2. The sender -/

/-- Segments that the peer has may leave `snd_buf`. -/
theorem Sending.Stands.forget (h : v.Stands t) (hconv : v'.conv = v.conv)
    (hnext : v'.snd_nxt = v.snd_nxt) (hqueue : v'.queue = v.queue)
    (hsub : ∀ s ∈ v'.buf, s ∈ v.buf) (hgone : ∀ s ∈ v.buf, s ∈ v'.buf ∨ t.Has s.sn.toNat) :
    ∃ t', t.Forgets t' ∧ v'.Stands t' := by
  refine ⟨_, ⟨{i | t.Has i ∧ ∀ s ∈ v'.buf, s.sn.toNat ≠ i}, fun i hi => hi.1, rfl⟩, ?_⟩
  refine ⟨hnext ▸ h.next, hqueue ▸ h.waiting, ?_, ?_⟩
  · intro s hs
    rw [hconv]
    exact h.buf s (hsub s hs)
  · rintro i ⟨hi, hkept⟩
    obtain ⟨s, hs, rfl⟩ := h.pending i hi
    rcases hgone s hs with hs' | hhas
    · exact ⟨s, hs', rfl⟩
    · by_contra hnot
      exact hkept ⟨hhas, fun s' hs' heq => hnot ⟨s', hs', heq⟩⟩

theorem Few.sent_lt (h : Few t) : t.sent.length < 2 ^ 31 :=
  Nat.lt_of_le_of_lt (Nat.le_add_right _ _) h

theorem Few.receives (h : Few t) (hsteps : t.Receives t') : Few t' := by
  obtain ⟨hsent, hwaiting, -, -⟩ := hsteps.frame
  rw [Few, hsent, hwaiting]
  exact h

theorem Few.forgets (h : Few t) (hforget : t.Forgets t') : Few t' := by
  obtain ⟨hsent, hwaiting⟩ := hforget.sent
  rw [Few, hsent, hwaiting]
  exact h

namespace IKCPCB

variable {kcp : IKCPCB} {sn una : UInt32}

theorem setSndBuf_stands {buf : List IKCPSEG} (h : kcp.sending.Stands t)
    (hsub : ∀ seg ∈ buf, seg ∈ kcp.snd_buf)
    (hgone : ∀ seg ∈ kcp.snd_buf, seg ∈ buf ∨ t.Has seg.sn.toNat) :
    ∃ t', t.Forgets t' ∧ (kcp.setSndBuf buf).sending.Stands t' := by
  refine h.forget rfl rfl rfl ?_ ?_
  · intro s hs
    obtain ⟨seg, hseg, rfl⟩ := List.mem_map.mp hs
    exact List.mem_map_of_mem (hsub seg hseg)
  · intro s hs
    obtain ⟨seg, hseg, rfl⟩ := List.mem_map.mp hs
    exact (hgone seg hseg).imp_left List.mem_map_of_mem

theorem parse_una_stands (h : kcp.sending.Stands t) (hi : t.Inv) (hfew : Few t)
    (huna : una.toNat ≤ t.expected) :
    ∃ t', t.Forgets t' ∧ (kcp.ikcp_parse_una una).sending.Stands t' := by
  apply setSndBuf_stands h
  · exact fun seg hseg => (List.dropWhile_suffix _).subset hseg
  · intro seg hseg
    rw [← List.takeWhile_append_dropWhile (p := fun seg => 0 < _itimediff una seg.sn)
      (l := kcp.snd_buf)] at hseg
    rcases List.mem_append.mp hseg with htake | hdrop
    · have hdiff : 0 < _itimediff una seg.sn := by simpa using List.mem_takeWhile_imp htake
      have hlt := lt_length_of_getElem?
        (h.buf seg.numbered (List.mem_map_of_mem ((List.takeWhile_prefix _).subset htake))).2.2
      have hsent := hfew.sent_lt
      have hle := hi.expected_le
      have hlt' : seg.sn.toNat < t.sent.length := hlt
      rw [itimediff_eq (by omega) (by omega)] at hdiff
      exact .inr (.inl (by omega))
    · exact .inl hdrop

theorem removeSegment_subset (sn : UInt32) (buf : List IKCPSEG) :
    ∀ seg ∈ removeSegment sn buf, seg ∈ buf := by
  induction buf with
  | nil => exact fun _ h => h
  | cons s rest ih =>
    intro seg hseg
    rw [removeSegment] at hseg
    split at hseg
    · exact List.mem_cons_of_mem _ hseg
    split at hseg
    · exact hseg
    · rcases List.mem_cons.mp hseg with rfl | hseg
      · exact List.mem_cons_self
      · exact List.mem_cons_of_mem _ (ih seg hseg)

theorem mem_removeSegment (sn : UInt32) (buf : List IKCPSEG) :
    ∀ seg ∈ buf, seg ∈ removeSegment sn buf ∨ seg.sn = sn := by
  induction buf with
  | nil => exact fun _ h => nomatch h
  | cons s rest ih =>
    intro seg hseg
    rw [removeSegment]
    split
    · rename_i heq
      rcases List.mem_cons.mp hseg with rfl | hseg
      · exact .inr heq.symm
      · exact .inl hseg
    split
    · exact .inl hseg
    · rcases List.mem_cons.mp hseg with rfl | hseg
      · exact .inl List.mem_cons_self
      · exact (ih seg hseg).imp_left (List.mem_cons_of_mem _)

theorem parse_ack_stands (h : kcp.sending.Stands t) (hhas : t.Has sn.toNat) :
    ∃ t', t.Forgets t' ∧ (kcp.ikcp_parse_ack sn).sending.Stands t' := by
  rw [ikcp_parse_ack]
  split
  · exact ⟨t, .refl t, h⟩
  · apply setSndBuf_stands h (removeSegment_subset sn _)
    intro seg hseg
    exact (mem_removeSegment sn _ seg hseg).imp_right fun heq => by rwa [heq]

theorem RcvOnly.sending {kcp' : IKCPCB} (h : kcp.RcvOnly kcp') : kcp'.sending = kcp.sending := by
  obtain ⟨r, rfl⟩ := h
  rfl

theorem AckOnly.receiving {kcp' : IKCPCB} (h : kcp.AckOnly kcp') :
    kcp'.receiving = kcp.receiving := by
  obtain ⟨a, rfl⟩ := h
  rfl

theorem sending_shrink_buf (kcp : IKCPCB) : kcp.ikcp_shrink_buf.sending = kcp.sending := by
  rw [ikcp_shrink_buf]
  split <;> rfl

theorem inputHead_stands (h : kcp.sending.Stands t) (hi : t.Inv) (hfew : Few t)
    (huna : seg.una.toNat ≤ t.expected) :
    ∃ t', t.Forgets t' ∧ (kcp.inputHead seg).sending.Stands t' := by
  rw [inputHead, sending_shrink_buf]
  exact parse_una_stands h hi hfew huna

theorem inputAck_stands (h : kcp.sending.Stands t) (hhas : t.Has seg.sn.toNat) :
    ∃ t', t.Forgets t' ∧ (kcp.inputAck seg).sending.Stands t' := by
  rw [inputAck, sending_shrink_buf]
  apply parse_ack_stands _ hhas
  split
  · exact h
  · exact h

theorem inputCommand_sending (h : kcp.sending.Stands t) (flag : MaxAck)
    (hack : seg.cmd = IKCP_CMD_ACK → t.Has seg.sn.toNat) :
    ∃ t', t.Forgets t' ∧ (kcp.inputCommand flag seg).1.sending.Stands t' := by
  rw [inputCommand]
  split
  · rename_i hcmd
    dsimp only
    exact inputAck_stands h (hack hcmd)
  refine ⟨t, .refl t, ?_⟩
  split
  · dsimp only
    rw [(inputPush_only kcp seg).sending]
    exact h
  split
  · exact h
  · exact h

/-- What the peer tells with a segment makes the sender forget only what has arrived. -/
theorem inputSegment_sending (h : kcp.sending.Stands t) (hi : t.Inv) (hfew : Few t)
    (flag : MaxAck) (hseg : seg.Honest conv u t) :
    ∃ t', t.Forgets t' ∧ (kcp.inputSegment flag seg).1.sending.Stands t' := by
  obtain ⟨t₁, hforget, hhead⟩ := inputHead_stands h hi hfew hseg.una
  obtain ⟨t₂, hforget₂, hcommand⟩ := inputCommand_sending hhead flag
    fun hcmd => hforget.sends.has_iff.mpr (hseg.ack hcmd)
  exact ⟨t₂, hforget.trans hforget₂, hcommand⟩

end IKCPCB

/-! ## 3. The receiver -/

variable {w : Receiving} {s : Numbered}

theorem Receiving.Stands.owe {sn : UInt32} (h : w.Stands t) (hhas : t.Has sn.toNat) :
    ({ w with acks := w.acks ++ [sn] } : Receiving).Stands t where
  next := h.next
  ready := h.ready
  counted := h.counted
  buf := h.buf
  early := h.early
  owed := by
    intro a ha
    rcases List.mem_append.mp ha with ha | ha
    · exact h.owed a ha
    · exact List.mem_singleton.mp ha ▸ hhas

/-- A segment is put into `rcv_buf`. -/
theorem Receiving.Stands.arrive (buf : List Numbered) (h : w.Stands t)
    (hsent : t.sent[s.sn.toNat]? = some s.fragment) (hbuf : ∀ x, x ∈ buf ↔ x = s ∨ x ∈ w.buf) :
    ∃ t', t.Receive t' ∧ t'.Has s.sn.toNat ∧ ({ w with buf := buf } : Receiving).Stands t' := by
  have hstep := Transfer.Receive.arrive t s.sn.toNat (lt_length_of_getElem? hsent)
  refine ⟨_, hstep, .inr (Set.mem_insert _ _), h.next, h.ready, h.counted, ?_, ?_, ?_⟩
  · intro x hx
    rcases (hbuf x).mp hx with rfl | hx
    · exact ⟨.inr (Set.mem_insert _ _), hsent⟩
    · exact ⟨hstep.has (h.buf x hx).1, (h.buf x hx).2⟩
  · rintro i (rfl | hi)
    · exact ⟨s, (hbuf s).mpr (.inl rfl), rfl⟩
    · obtain ⟨x, hx, hxi⟩ := h.early i hi
      exact ⟨x, (hbuf x).mpr (.inr hx), hxi⟩
  · exact fun sn hsn => hstep.has (h.owed sn hsn)

/-- The segment that is next in order moves to `rcv_queue`. -/
theorem Receiving.Stands.advance (rest : List Numbered) (h : w.Stands t) (hi : t.Inv)
    (hfew : Few t) (hbuf : w.buf = s :: rest) (hsn : s.sn = w.rcv_nxt) {wnd : UInt32}
    (hwnd : w.nrcv_que < wnd) :
    ∃ t', t.Receive t' ∧
      ({ w with
        rcv_nxt := w.rcv_nxt + 1
        nrcv_que := w.nrcv_que + 1
        queue := w.queue ++ [s.fragment]
        buf := rest } : Receiving).Stands t' := by
  obtain ⟨hhas, hsent⟩ := h.buf s (hbuf ▸ List.mem_cons_self)
  rw [hsn, h.next] at hhas hsent
  have hlt := lt_length_of_getElem? hsent
  have hsmall := hfew.sent_lt
  have hearly : t.expected ∈ t.early := hhas.resolve_left (Nat.lt_irrefl _)
  have hstep := Transfer.Receive.advance t hearly
  refine ⟨_, hstep, ?_, ?_, ?_, ?_, ?_, ?_⟩
  · show (w.rcv_nxt + 1).toNat = t.expected + 1
    rw [UInt32.toNat_add, h.next, UInt32.toNat_one]
    omega
  · show w.queue ++ [s.fragment] = _
    rw [hi.ready_advance hsent, h.ready]
  · show (w.nrcv_que + 1).toNat = (w.queue ++ [s.fragment]).length
    have hle := wnd.toNat_lt
    have hwnd' := UInt32.lt_iff_toNat_lt.mp hwnd
    rw [UInt32.toNat_add, UInt32.toNat_one, List.length_append, List.length_singleton, ← h.counted]
    omega
  · intro x hx
    have hx' := h.buf x (hbuf ▸ List.mem_cons_of_mem _ hx)
    exact ⟨hstep.has hx'.1, hx'.2⟩
  · rintro i ⟨hmem, hne⟩
    obtain ⟨x, hx, hxi⟩ := h.early i hmem
    rcases List.mem_cons.mp (hbuf ▸ hx) with rfl | hx
    · exact absurd (hxi.symm.trans (hsn ▸ h.next)) hne
    · exact ⟨x, hx, hxi⟩
  · exact fun sn hmem => hstep.has (h.owed sn hmem)

namespace IKCPCB

variable {kcp : IKCPCB}

theorem moveAvailable_receives (kcp : IKCPCB) {buf : List IKCPSEG}
    (h : ({ kcp with rcv_buf := buf } : IKCPCB).receiving.Stands t) (hi : t.Inv) (hfew : Few t) :
    ∃ t', t.Receives t' ∧ (kcp.moveAvailable buf).receiving.Stands t' := by
  induction buf generalizing kcp t with
  | nil => exact ⟨t, .refl, h⟩
  | cons seg rest ih =>
    rw [moveAvailable]
    split
    · rename_i hcond
      obtain ⟨t₁, hstep, hstands⟩ := Receiving.Stands.advance (s := seg.numbered)
        (rest.map IKCPSEG.numbered) h hi hfew rfl hcond.1 hcond.2
      refine (ih _ ?_ (hstep.inv hi) (hfew.receives (.single hstep))).imp
        fun t' ht' => ⟨.head hstep ht'.1, ht'.2⟩
      show Receiving.Stands ⟨_, _, List.map _ (_ ++ [seg]), _, _⟩ t₁
      rw [List.map_append]
      exact hstands
    · exact ⟨t, .refl, h⟩

theorem mem_insertBack {newseg : IKCPSEG} {buf buf' : List IKCPSEG}
    (h : insertBack newseg buf = some buf') (x : IKCPSEG) : x ∈ buf' ↔ x = newseg ∨ x ∈ buf := by
  induction buf generalizing buf' with
  | nil =>
    cases h
    simp
  | cons seg prev ih =>
    rw [insertBack] at h
    split at h
    · cases h
    split at h
    · cases h
      exact List.mem_cons
    · obtain ⟨b, hb, rfl⟩ := Option.map_eq_some_iff.mp h
      rw [List.mem_cons, ih hb, List.mem_cons]
      exact or_left_comm

theorem insertBack_eq_none {newseg : IKCPSEG} {buf : List IKCPSEG}
    (h : insertBack newseg buf = none) : ∃ seg ∈ buf, seg.sn = newseg.sn := by
  induction buf with
  | nil => cases h
  | cons seg prev ih =>
    rw [insertBack] at h
    split at h
    · rename_i heq
      exact ⟨seg, List.mem_cons_self, heq⟩
    split at h
    · cases h
    · obtain ⟨x, hx, heq⟩ := ih (Option.map_eq_none_iff.mp h)
      exact ⟨x, List.mem_cons_of_mem _ hx, heq⟩

/-- A segment in the window, which is to be acknowledged, is kept if it is not there yet. -/
theorem parse_data_receives (h : w.Stands t) (hi : t.Inv) (hfew : Few t)
    (hkcp : kcp.receiving = { w with acks := w.acks ++ [seg.sn] })
    (hsent : t.sent[seg.sn.toNat]? = some seg.fragment)
    (hwindow : _itimediff seg.sn (kcp.rcv_nxt + kcp.rcv_wnd) < 0)
    (hnext : 0 ≤ _itimediff seg.sn kcp.rcv_nxt) :
    ∃ t', t.Receives t' ∧ (kcp.ikcp_parse_data seg).receiving.Stands t' := by
  have hbuf : w.buf = kcp.rcv_buf.map IKCPSEG.numbered := (congrArg Receiving.buf hkcp).symm
  rw [ikcp_parse_data, if_neg (not_or.mpr ⟨Int.not_le.mpr hwindow, Int.not_lt.mpr hnext⟩)]
  split
  · rename_i buf hinsert
    obtain ⟨t₁, hstep, hhas, hstands⟩ := Receiving.Stands.arrive (s := seg.numbered)
      (buf.reverse.map IKCPSEG.numbered) h hsent (by
        intro x
        simp only [hbuf, List.mem_map, List.mem_reverse, mem_insertBack hinsert]
        constructor
        · rintro ⟨y, rfl | hy, rfl⟩
          · exact .inl rfl
          · exact .inr ⟨y, hy, rfl⟩
        · rintro (rfl | ⟨y, hy, rfl⟩)
          · exact ⟨seg, .inl rfl, rfl⟩
          · exact ⟨y, .inr hy, rfl⟩)
    have hkept : ({ kcp.receiving with buf := buf.reverse.map IKCPSEG.numbered } :
        Receiving).Stands t₁ := by
      rw [hkcp]
      exact hstands.owe hhas
    obtain ⟨t', hsteps, hstands'⟩ := moveAvailable_receives
      { kcp with nrcv_buf := kcp.nrcv_buf + 1 } hkept (hstep.inv hi)
      (hfew.receives (.single hstep))
    exact ⟨t', .head hstep hsteps, hstands'⟩
  · rename_i hinsert
    obtain ⟨x, hx, hsn⟩ := insertBack_eq_none hinsert
    have hhas : t.Has seg.sn.toNat := by
      rw [← hsn]
      exact (h.buf x.numbered (hbuf ▸ List.mem_map_of_mem (List.mem_reverse.mp hx))).1
    apply moveAvailable_receives kcp _ hi hfew
    show kcp.receiving.Stands t
    rw [hkcp]
    exact h.owe hhas

theorem inputPush_receives (h : kcp.receiving.Stands t) (hi : t.Inv) (hfew : Few t)
    (hsent : t.sent[seg.sn.toNat]? = some seg.fragment) :
    ∃ t', t.Receives t' ∧ (kcp.inputPush seg).receiving.Stands t' := by
  have hpush (ts : UInt32) : (kcp.ikcp_ack_push seg.sn ts).receiving =
      { kcp.receiving with acks := kcp.receiving.acks ++ [seg.sn] } := by
    rw [ikcp_ack_push, receiving, List.map_append]
    rfl
  rw [inputPush]
  split
  · rename_i hwindow
    split
    · rename_i hnext
      exact parse_data_receives h hi hfew (hpush _) hsent hwindow hnext
    · rename_i hnext
      have hsmall := hfew.sent_lt
      have hle := hi.expected_le
      have hlt := lt_length_of_getElem? hsent
      have hrcv : kcp.rcv_nxt.toNat = t.expected := h.next
      rw [itimediff_eq (by omega) (by omega)] at hnext
      have hhas : t.Has seg.sn.toNat := .inl (by omega)
      refine ⟨t, .refl, ?_⟩
      rw [hpush]
      exact h.owe hhas
  · exact ⟨t, .refl, h⟩

theorem inputCommand_receives (h : kcp.receiving.Stands t) (hi : t.Inv) (hfew : Few t)
    (flag : MaxAck)
    (hpush : seg.cmd = IKCP_CMD_PUSH → t.sent[seg.sn.toNat]? = some seg.fragment) :
    ∃ t', t.Receives t' ∧ (kcp.inputCommand flag seg).1.receiving.Stands t' := by
  rw [inputCommand]
  split
  · refine ⟨t, .refl, ?_⟩
    dsimp only
    rw [(inputAck_only kcp seg).receiving]
    exact h
  split
  · rename_i hcmd
    dsimp only
    exact inputPush_receives h hi hfew (hpush hcmd)
  refine ⟨t, .refl, ?_⟩
  split
  · exact h
  · exact h

/-- A segment of the peer makes the receiver take steps. -/
theorem inputSegment_receives (h : kcp.receiving.Stands t) (hi : t.Inv) (hfew : Few t)
    (flag : MaxAck) (hseg : seg.Honest conv t u) :
    ∃ t', t.Receives t' ∧ (kcp.inputSegment flag seg).1.receiving.Stands t' := by
  rw [inputSegment]
  apply inputCommand_receives _ hi hfew flag hseg.push
  rw [(inputHead_only kcp seg).receiving]
  exact h

end IKCPCB

/-! ## 4. Datagrams of the peer -/

theorem IKCPSEG.Honest.onWire (h : seg.Honest conv t u) : seg.onWire.Honest conv t u where
  fits := ⟨h.fits.cmd, h.fits.frg, h.fits.len⟩
  conv_eq := h.conv_eq
  push := h.push
  una := h.una
  ack := h.ack

/-- Both halves of a control block: `out` is the transfer to the peer, `inn` the one from it. -/
structure IKCPCB.Stands (kcp : IKCPCB) (out inn : Transfer Fragment) : Prop where
  sending : kcp.sending.Stands out
  receiving : kcp.receiving.Stands inn

namespace IKCPCB

variable {kcp : IKCPCB} {out inn out' inn' : Transfer Fragment}

/-- What the receiver and the acknowledgements do to a pair of transfers. -/
def Hears (out inn out' inn' : Transfer Fragment) : Prop := out.Forgets out' ∧ inn.Receives inn'

theorem inputSegments_stands {segs : List IKCPSEG} (flag : MaxAck) (h : kcp.Stands out inn)
    (hout : out.Inv) (hinn : inn.Inv) (hfew : Few out) (hfew' : Few inn)
    (hsegs : ∀ seg ∈ segs, seg.Honest conv inn out) :
    ∃ out' inn', Hears out inn out' inn' ∧
      (inputSegments (kcp, flag) segs).1.Stands out' inn' := by
  induction segs generalizing kcp flag out inn with
  | nil => exact ⟨out, inn, ⟨.refl out, .refl⟩, h⟩
  | cons seg segs ih =>
    have hseg := (hsegs seg List.mem_cons_self).onWire
    obtain ⟨out₁, hforget, hsending⟩ := inputSegment_sending h.sending hout hfew flag hseg
    obtain ⟨inn₁, hreceives, hreceiving⟩ := inputSegment_receives h.receiving hinn hfew' flag hseg
    obtain ⟨hexpected, -, -, -⟩ := hforget.sends.frame
    obtain ⟨hsent, -, -, -⟩ := hreceives.frame
    obtain ⟨out', inn', hears, hstands⟩ := ih _ ⟨hsending, hreceiving⟩ (hforget.sends.inv hout)
      (hreceives.inv hinn) (hfew.forgets hforget) (hfew'.receives hreceives)
      fun s hs => (hsegs s (List.mem_cons_of_mem _ hs)).mono (hsent ▸ List.prefix_refl _)
        hexpected.ge fun i hi => hforget.sends.has_iff.mpr hi
    exact ⟨out', inn', ⟨hforget.trans hears.1, hreceives.trans hears.2⟩, hstands⟩

theorem Stands.congr {kcp' : IKCPCB} (h : kcp.Stands out inn) (hsending : kcp'.sending = kcp.sending)
    (hreceiving : kcp'.receiving = kcp.receiving) : kcp'.Stands out inn :=
  ⟨hsending ▸ h.sending, hreceiving ▸ h.receiving⟩

theorem numbered_countFastack (sn : UInt32) (buf : List IKCPSEG) :
    (countFastack sn buf).map IKCPSEG.numbered = buf.map IKCPSEG.numbered := by
  induction buf with
  | nil => rfl
  | cons seg rest ih =>
    rw [countFastack]
    split
    · rfl
    · rw [List.map_cons, List.map_cons, ih]
      split <;> rfl

theorem parse_fastack_stands (h : kcp.Stands out inn) (sn : UInt32) :
    (kcp.ikcp_parse_fastack sn).Stands out inn := by
  rw [ikcp_parse_fastack]
  split
  · exact h
  · apply h.congr
    · rw [sending, numbered_countFastack]
      rfl
    · rfl

theorem growCwnd_stands (h : kcp.Stands out inn) (prev_una : UInt32) :
    (kcp.growCwnd prev_una).Stands out inn := by
  rw [growCwnd]
  split
  · exact h.congr rfl rfl
  · exact h

theorem afterLoop_stands (h : kcp.Stands out inn) (flag : MaxAck) (prev_una : UInt32) :
    (kcp.afterLoop flag prev_una).Stands out inn := by
  cases flag with
  | none => exact growCwnd_stands h prev_una
  | some maxack => exact growCwnd_stands (parse_fastack_stands h maxack) prev_una

/-- A datagram of the peer is accepted. -/
theorem ikcp_input_stands {d : List UInt8} (h : kcp.Stands out inn) (hout : out.Inv)
    (hinn : inn.Inv) (hfew : Few out) (hfew' : Few inn) (hne : d ≠ [])
    (hd : IsDatagram (IKCPSEG.Honest kcp.conv inn out) d) :
    ∃ out' inn', Hears out inn out' inn' ∧ (kcp.ikcp_input d).1.Stands out' inn' ∧
      (kcp.ikcp_input d).2 = 0 := by
  obtain ⟨segs, rfl, hsegs⟩ := hd
  have hsegs_ne : segs ≠ [] := by
    rintro rfl
    exact hne rfl
  rw [ikcp_input_segments (fun seg hseg => ⟨(hsegs seg hseg).fits, (hsegs seg hseg).conv_eq⟩)
    hsegs_ne]
  obtain ⟨out', inn', hears, hstands⟩ :=
    inputSegments_stands none h hout hinn hfew hfew' hsegs
  refine ⟨out', inn', hears, ?_, rfl⟩
  dsimp only
  exact afterLoop_stands hstands _ _

end IKCPCB

end

end LuaServer
