import Mathlib.Data.List.Forall2
import LuaServer.Network.HttpMessage
import LuaServer.Network.HttpWatch

/-!
# HttpDelimitation — where the next head begins

A client sends a stream of requests to a connection under observation.  The connection delimits the
requests as long as the heads that it parses are theirs, each at its own place, and each request has
got one call of its kind.
-/

open Reasoning

namespace LuaServer

namespace HttpWatch

open HttpConnect

variable {llhttp : Llhttp} {growth : Nat → Nat → Nat} {w : HttpWatch}

/-! ## 1. The turn on the received bytes -/

theorem search_unfound (hb : w.buffer.InBounds) (hnone : w.conn.m_content = none)
    (hsees : SeesOnly true w.buffer)
    (hfind : find headEnd (w.buffer.active.takeWhile (· ≠ 0)) = none) :
    w.search llhttp growth = { w with
      socket := ⟨⟨w.buffer.readCompleted w.buffer.active.length,
        w.conn.headMissing growth w.buffer.active⟩, true⟩
      consumed := w.consumed + w.buffer.active.length } := by
  have hin : w.conn.searchIn llhttp growth true w.buffer.active =
      (w.conn.headMissing growth w.buffer.active, []) := by
    rw [searchIn, if_neg (by simp), hfind]
  have hagree : Agree (findHead llhttp growth (w.conn, w.buffer))
      (w.conn.searchIn llhttp growth true w.buffer.active) w.buffer := findHead_agree hb hsees
  rw [hin] at hagree
  obtain ⟨k, hk, heq, hrest⟩ := hagree
  have hlen : k = w.buffer.active.length := by
    have hdrop := congrArg List.length hrest
    rw [List.length_drop, List.length_nil] at hdrop
    omega
  subst hlen
  have hcontent : (w.conn.headMissing growth w.buffer.active).m_content = none :=
    headMissing_content hnone _
  rw [search, if_pos hnone]
  simp only [heq]
  rw [if_pos hcontent]
  simp only [MessageBuffer.readCompleted, Nat.add_sub_cancel_left]

theorem search_found (hb : w.buffer.InBounds) (hnone : w.conn.m_content = none)
    (hsees : SeesOnly true w.buffer) {pos : Nat}
    (hfind : find headEnd (w.buffer.active.takeWhile (· ≠ 0)) = some pos) :
    w.search llhttp growth = { w with
      socket := ⟨⟨w.buffer.readCompleted (pos + 4),
        w.conn.headFound llhttp growth (w.buffer.active.take (pos + 4))⟩, true⟩
      consumed := w.consumed + (pos + 4)
      heads := w.heads ++ [(w.consumed + (pos + 4) -
        (w.conn.headSoFar ++ w.buffer.active.take (pos + 4)).length,
        w.conn.headSoFar ++ w.buffer.active.take (pos + 4))]
      parsed := w.conn.headFound llhttp growth (w.buffer.active.take (pos + 4)) } := by
  have hin : w.conn.searchIn llhttp growth true w.buffer.active =
      (w.conn.headFound llhttp growth (w.buffer.active.take (pos + 4)),
        w.buffer.active.drop (pos + 4)) := by
    rw [searchIn, if_neg (by simp), hfind]
  have hagree : Agree (findHead llhttp growth (w.conn, w.buffer))
      (w.conn.searchIn llhttp growth true w.buffer.active) w.buffer := findHead_agree hb hsees
  rw [hin] at hagree
  obtain ⟨k, hk, heq, hrest⟩ := hagree
  have hle : pos + 4 ≤ w.buffer.active.length :=
    (find_le hfind).trans (List.takeWhile_prefix _).length_le
  have hlen : k = pos + 4 := by
    have hdrop := congrArg List.length hrest
    rw [List.length_drop, List.length_drop] at hdrop
    omega
  subst hlen
  have hcontent := @headFound_content llhttp growth w.conn (w.buffer.active.take (pos + 4))
  have hpacket := @headFound_packet llhttp growth w.conn (w.buffer.active.take (pos + 4))
  have htext : (w.conn.headFound llhttp growth (w.buffer.active.take (pos + 4))).headSoFar =
      w.conn.headSoFar ++ w.buffer.active.take (pos + 4) := by
    rw [← w.conn.append_headSoFar growth, headSoFar, hpacket]
    rfl
  rw [search, if_pos hnone]
  simp only [heq]
  rw [if_neg hcontent]
  rw [headSoFar] at htext
  simp only [htext, MessageBuffer.readCompleted, Nat.add_sub_cancel_left]

/-- `w'` has `n` more bytes of the body than `w`, and has completed the request if they are all. -/
structure Filled (w w' : HttpWatch) (c : HttpConnect) (n : Nat) : Prop where
  le : n ≤ w.buffer.active.length
  taken : (n : Int) = max 0 (min w.conn.m_residue w.buffer.active.length)
  residue : c.m_residue = w.conn.m_residue - n
  content : c.m_content = w.conn.m_content
  status : c.status = w.conn.status
  reactions : c.reactions = w.conn.reactions
  parser : c.mParser = w.conn.mParser
  conn : w'.conn = c.finish
  buffer : w'.buffer = w.buffer.readCompleted n
  consumed : w'.consumed = w.consumed + n
  heads : w'.heads = w.heads

theorem fill_filled (growth : Nat → Nat → Nat) (hb : w.buffer.InBounds) :
    ∃ n c, Filled w (w.fill growth) c n := by
  have hfill : ∀ n c, fillBody growth (w.conn, w.buffer) = (c, w.buffer.readCompleted n) →
      (w.fill growth).conn = c.finish ∧ (w.fill growth).buffer = w.buffer.readCompleted n ∧
        (w.fill growth).consumed = w.consumed + n ∧ (w.fill growth).heads = w.heads := by
    intro n c heq
    unfold fill
    simp only [heq, MessageBuffer.readCompleted, Nat.add_sub_cancel_left]
    split <;> exact ⟨rfl, rfl, rfl, rfl⟩
  by_cases hres : 0 < w.conn.m_residue
  · obtain ⟨n, hn⟩ : ∃ n, n = min w.conn.m_residue.toNat w.buffer.active.length := ⟨_, rfl⟩
    have hle : n ≤ w.buffer.active.length := by omega
    have hlen : (w.buffer.active.take n).length = n := by
      rw [List.length_take]
      omega
    obtain ⟨hconn, hbuffer, hconsumed, hheads⟩ :=
      hfill n (w.conn.bodyFound growth (w.buffer.active.take n)) (by
        rw [fillBody]
        simp only [if_pos hres, bodyLength_eq hb hres, ← hn, hb.readBytes_eq hle])
    refine ⟨n, w.conn.bodyFound growth (w.buffer.active.take n), hle, by omega, ?_, rfl, rfl, rfl,
      rfl, hconn, hbuffer, hconsumed, hheads⟩
    change w.conn.m_residue - ((w.buffer.active.take n).length : Int) = _
    rw [hlen]
  · obtain ⟨hconn, hbuffer, hconsumed, hheads⟩ := hfill 0 w.conn (by
      rw [fillBody]
      simp only [if_neg hres]
      rfl)
    exact ⟨0, _, Nat.zero_le _, by omega, by simp, rfl, rfl, rfl, rfl, hconn, hbuffer, hconsumed,
      hheads⟩

/-- What follows the search parses no head and gives nothing back. -/
theorem turn_search (w : HttpWatch) :
    (w.turn llhttp growth).heads = (w.search llhttp growth).heads ∧
      (w.search llhttp growth).consumed ≤ (w.turn llhttp growth).consumed := by
  have hfill : ∀ v : HttpWatch,
      (v.fill growth).heads = v.heads ∧ v.consumed ≤ (v.fill growth).consumed := by
    intro v
    unfold fill
    simp only
    split <;> exact ⟨rfl, Nat.le_add_right _ _⟩
  unfold turn
  simp only
  split
  · exact hfill _
  · exact ⟨rfl, le_refl _⟩

end HttpWatch

/-- A connection under observation, and what its client has not sent yet. -/
structure HttpExchange where
  watch : HttpWatch
  unsent : List UInt8

namespace HttpExchange

open HttpMessage

abbrev conn (x : HttpExchange) : HttpConnect := x.watch.conn

abbrev buffer (x : HttpExchange) : HttpConnect.Buffer := x.watch.buffer

/-- The client is to send the requests. -/
def start (c : HttpConnect) (b : HttpConnect.Buffer) (qs : List HttpMessage) : HttpExchange :=
  ⟨HttpWatch.start c b, stream qs⟩

section
variable (llhttp : Llhttp) (growth : Nat → Nat → Nat)

/-- A read brings what comes next of the stream, cut anywhere. -/
def step (x : HttpExchange) : HttpAction → Option HttpExchange
  | .read r =>
    if r.bytes <+: x.unsent then
      (x.watch.step llhttp growth (.read r)).map fun w => ⟨w, x.unsent.drop r.bytes.length⟩
    else none
  | .turn => (x.watch.step llhttp growth .turn).map fun w => ⟨w, x.unsent⟩
  | .leave => (x.watch.step llhttp growth .leave).map fun w => ⟨w, x.unsent⟩
  | .reuse => none

end

/-! ## 2. Where a connection stands -/

/-- The connection has answered `before`, and the requests of the list are still to come. -/
inductive Place (before : List HttpMessage) : List HttpMessage → HttpWatch → Prop
  | done {w : HttpWatch} : w.conn.Waiting [] → w.heads = headPlaces 0 before →
      w.consumed = (stream before).length → Place before [] w
  -- it has `k` bytes of a head
  | head {q : HttpMessage} {rest : List HttpMessage} {w : HttpWatch} {k : Nat} :
      k < q.head.length → w.conn.Waiting (q.head.take k) → w.heads = headPlaces 0 before →
      w.consumed = (stream before).length + k → Place before (q :: rest) w
  -- it has parsed a head, and has `j` bytes of the body
  | body {q : HttpMessage} {rest : List HttpMessage} {w : HttpWatch} {j : Nat} :
      j < q.body.length → w.conn.status = .running → w.conn.m_content ≠ none →
      (w.conn.mParser.method, q.method) ∈ HTTP_METHOD_MAP →
      w.conn.m_residue = (q.body.length : Int) - j → w.heads = headPlaces 0 (before ++ [q]) →
      w.consumed = (stream before).length + (q.head.length + j) → Place before (q :: rest) w

/-- The heads that have been parsed are those of the requests, each at its place, and one call of
the right kind has been made for each request that is complete; nothing but what was received has
been used. -/
structure Delimits (R : List HttpReaction) (qs : List HttpMessage) (x : HttpExchange) : Prop where
  ordered : x.buffer.rpos ≤ x.buffer.wpos
  rest : x.buffer.active ++ x.unsent = (stream qs).drop x.watch.consumed
  place : ∃ before rest calls, before ++ rest = qs ∧ x.conn.reactions = R ++ calls ∧
    List.Forall₂ HttpReaction.Answers calls before ∧ Place before rest x.watch

/-- The search of a turn in the head of `q` ends inside the received bytes, and finds the end of the
head where they hold it; the head is accepted, and its request is delimited. -/
structure SearchFits (llhttp : Llhttp) (q : HttpMessage) (w : HttpWatch) : Prop where
  inside : HttpSocket.HeadEndsInside w.buffer
  short : w.conn.m_readPacket.wpos + w.buffer.getActiveSize < q.head.length →
    w.conn.m_readPacket.wpos + w.buffer.getActiveSize < 0xffff
  whole : q.head.length ≤ w.conn.m_readPacket.wpos + w.buffer.getActiveSize →
    w.conn.m_readPacket.wpos + 4 ≤ q.head.length ∧
      (llhttp w.conn.mParser.m_url q.head).ok = true ∧ q.IsDelimited

/-- A turn that searches the end of a head fits the request whose head comes next. -/
def TurnFits (llhttp : Llhttp) (qs : List HttpMessage) (x : HttpExchange) : HttpAction → Prop
  | .turn => x.conn.m_content = none → ∀ q, qs[x.watch.heads.length]? = some q →
      SearchFits llhttp q x.watch
  | _ => True

section
variable (llhttp : Llhttp)

instance (q : HttpMessage) (w : HttpWatch) : Decidable (SearchFits llhttp q w) :=
  decidable_of_iff (HttpSocket.HeadEndsInside w.buffer ∧
    (w.conn.m_readPacket.wpos + w.buffer.getActiveSize < q.head.length →
      w.conn.m_readPacket.wpos + w.buffer.getActiveSize < 0xffff) ∧
    (q.head.length ≤ w.conn.m_readPacket.wpos + w.buffer.getActiveSize →
      w.conn.m_readPacket.wpos + 4 ≤ q.head.length ∧
        (llhttp w.conn.mParser.m_url q.head).ok = true ∧ q.IsDelimited))
    ⟨fun ⟨inside, short, whole⟩ => ⟨inside, short, whole⟩,
      fun ⟨inside, short, whole⟩ => ⟨inside, short, whole⟩⟩

instance (qs : List HttpMessage) (x : HttpExchange) (a : HttpAction) :
    Decidable (TurnFits llhttp qs x a) :=
  match a with
  | .turn => decidable_of_iff (x.conn.m_content = none → ∀ q ∈ qs[x.watch.heads.length]?,
      SearchFits llhttp q x.watch) Iff.rfl
  | .read _ | .leave | .reuse => isTrue trivial

end

variable {llhttp : Llhttp} {growth : Nat → Nat → Nat} {R calls : List HttpReaction}
  {qs before rest : List HttpMessage} {q : HttpMessage} {w : HttpWatch} {x : HttpExchange}
  {unsent : List UInt8} {j : Nat}

theorem Place.idle (hw : w.conn.Waiting []) (hheads : w.heads = headPlaces 0 before)
    (hconsumed : w.consumed = (stream before).length) (rest : List HttpMessage) :
    Place before rest w := by
  cases rest with
  | nil => exact .done hw hheads hconsumed
  | cons q rest =>
    have hfour := q.isHead.four_le
    exact .head (k := 0) (by omega) hw hheads hconsumed

theorem Place.running (h : Place before rest w) : w.conn.status = .running := by
  cases h with
  | done hw => exact hw.running
  | head _ hw => exact hw.running
  | body _ hrun => exact hrun

/-- Without `m_content`, all heads that have been parsed are those of complete requests. -/
theorem Place.of_none (h : Place before rest w) (hnone : w.conn.m_content = none) :
    w.heads = headPlaces 0 before ∧ (stream before).length ≤ w.consumed ∧
      ∀ q ∈ rest.head?, w.consumed < (stream before).length + q.head.length := by
  cases h with
  | done _ hheads hconsumed => exact ⟨hheads, hconsumed.ge, fun q hq => by cases hq⟩
  | head hk _ hheads hconsumed =>
    refine ⟨hheads, by omega, ?_⟩
    intro p hp
    cases hp
    omega
  | body _ _ hcontent => exact absurd hnone hcontent

/-- With `m_content`, the last head that has been parsed is that of the request whose body is
read. -/
theorem Place.of_some (h : Place before rest w) (hcontent : w.conn.m_content ≠ none) :
    ∃ q rest', rest = q :: rest' ∧ w.heads = headPlaces 0 (before ++ [q]) ∧
      (w.consumed : Int) + w.conn.m_residue =
        (stream before).length + (q.head.length + q.body.length) := by
  cases h with
  | done hw => exact absurd hw.content hcontent
  | head _ hw => exact absurd hw.content hcontent
  | @body q rest' _ j _ _ _ _ hresidue hheads hconsumed =>
    refine ⟨q, rest', rfl, hheads, ?_⟩
    rw [hresidue, hconsumed]
    omega

theorem rest_further {active stream : List UInt8} {m n : Nat}
    (h : active ++ unsent = stream.drop m) (hn : n ≤ active.length) :
    active.drop n ++ unsent = stream.drop (m + n) := by
  rw [← List.drop_drop, ← h, List.drop_append_of_le_length hn]

/-- The requests of `before` have been answered, and the next one is `q`. -/
structure Serving (R reactions : List HttpReaction) (qs before : List HttpMessage) (q : HttpMessage)
    (rest : List HttpMessage) (w : HttpWatch) (unsent : List UInt8) : Prop where
  inBounds : w.buffer.InBounds
  append : before ++ q :: rest = qs
  remaining : w.buffer.active ++ unsent = (stream qs).drop w.consumed
  answered : List.Forall₂ HttpReaction.Answers reactions before
  called : w.conn.reactions = R ++ reactions

/-- `j` bytes of the body of `q` have been read. -/
structure InBody (R reactions : List HttpReaction) (qs before : List HttpMessage) (q : HttpMessage)
    (rest : List HttpMessage) (j : Nat) (w : HttpWatch) (unsent : List UInt8) : Prop
    extends Serving R reactions qs before q rest w unsent where
  le : j ≤ q.body.length
  running : w.conn.status = .running
  content : w.conn.m_content ≠ none
  method : (w.conn.mParser.method, q.method) ∈ HTTP_METHOD_MAP
  residue : w.conn.m_residue = (q.body.length : Int) - j
  heads : w.heads = headPlaces 0 (before ++ [q])
  consumed : w.consumed = (stream before).length + (q.head.length + j)

theorem InBody.fill_delimits (h : InBody R calls qs before q rest j w unsent) :
    Delimits R qs ⟨w.fill growth, unsent⟩ := by
  obtain ⟨n, c, hfill⟩ := HttpWatch.fill_filled growth h.inBounds
  have htaken := hfill.taken
  have hleft := hfill.residue
  have hconsumed := h.consumed
  have hconsumed' := hfill.consumed
  have hresidue := h.residue
  have hle := h.le
  have hordered := (h.inBounds.readCompleted hfill.le).rpos_le
  have hrest := rest_further h.remaining hfill.le
  rw [← h.inBounds.readCompleted_active hfill.le, ← hfill.buffer, ← hfill.consumed] at hrest
  rw [← hfill.buffer] at hordered
  refine ⟨hordered, hrest, ?_⟩
  by_cases hdone : c.m_residue = 0
  · have hfinish : (w.fill growth).conn = c.complete.zero := hfill.conn.trans (if_pos hdone)
    refine ⟨before ++ [q], rest, calls ++ [c.completeReaction], ?_, ?_, ?_, ?_⟩
    · rw [List.append_assoc]
      exact h.append
    · change (w.fill growth).conn.reactions = _
      rw [hfinish, ← List.append_assoc, ← h.called, ← hfill.reactions]
      rfl
    · exact List.rel_append h.answered (.cons
        (HttpConnect.completeReaction_answers (hfill.parser ▸ h.method)) .nil)
    · change Place _ _ (w.fill growth)
      apply Place.idle
      · rw [hfinish]
        exact ⟨hfill.status.trans h.running, rfl, rfl, resize_zero _, rfl⟩
      · exact hfill.heads.trans h.heads
      · rw [stream_snoc_length, bytes_length]
        omega
  · have hfinish : (w.fill growth).conn = c := hfill.conn.trans (if_neg hdone)
    refine ⟨before, q :: rest, calls, h.append, ?_, h.answered, ?_⟩
    · change (w.fill growth).conn.reactions = _
      rw [hfinish, hfill.reactions, h.called]
    change Place _ _ (w.fill growth)
    apply Place.body (j := j + n)
    · omega
    · rw [hfinish, hfill.status, h.running]
    · rw [hfinish, hfill.content]
      exact h.content
    · rw [hfinish, hfill.parser]
      exact h.method
    · rw [hfinish]
      omega
    · exact hfill.heads.trans h.heads
    · omega

theorem eq_of_headPlaces {done done' later later' : List HttpMessage}
    (h : headPlaces 0 done = headPlaces 0 done') (happend : done ++ later = done' ++ later') :
    done = done' := by
  have hlen := congrArg List.length h
  rw [headPlaces_length, headPlaces_length] at hlen
  exact List.append_inj_left happend hlen

/-- The head behind those of `before` is that of the next request. -/
theorem head_of_headPlaces {done later : List HttpMessage} {place : Nat} {text : List UInt8}
    (h : headPlaces 0 before ++ [(place, text)] = headPlaces 0 done)
    (happend : before ++ q :: rest = done ++ later) : text = q.head := by
  have hlen := congrArg List.length h
  rw [List.length_append, headPlaces_length, headPlaces_length, List.length_singleton] at hlen
  have hnext : (before ++ [q]) ++ rest = done ++ later := by
    rw [List.append_assoc]
    exact happend
  have hdone : before ++ [q] = done := by
    apply List.append_inj_left hnext
    rw [List.length_append]
    exact hlen
  rw [← hdone, headPlaces_append] at h
  have hlast := List.append_cancel_left h
  exact congrArg Prod.snd (List.cons.inj hlast).1

/-- A connection that takes the body to be shorter than it is. -/
theorem fill_not_delimits (hb : w.buffer.InBounds) (hqs : before ++ q :: rest = qs)
    (hcontent : w.conn.m_content ≠ none) (hheads : w.heads = headPlaces 0 (before ++ [q]))
    (hconsumed : w.consumed = (stream before).length + q.head.length)
    (hresidue : w.conn.m_residue < q.body.length) :
    ¬ Delimits R qs ⟨w.fill growth, unsent⟩ := by
  intro hdelimits
  obtain ⟨before', rest', -, hqs', -, -, hplace⟩ := hdelimits.place
  change Place before' rest' (w.fill growth) at hplace
  obtain ⟨n, c, hfill⟩ := HttpWatch.fill_filled growth hb
  have htaken := hfill.taken
  have hleft := hfill.residue
  have hconsumed' := hfill.consumed
  have hheads' := hfill.heads.trans hheads
  have happend : (before ++ [q]) ++ rest = before' ++ rest' := by
    rw [List.append_assoc]
    exact hqs.trans hqs'.symm
  by_cases hdone : c.m_residue = 0
  · -- the call is made before the body has been read
    have hfinish : (w.fill growth).conn = c.complete.zero := hfill.conn.trans (if_pos hdone)
    obtain ⟨hplaces, hle, -⟩ := hplace.of_none (hfinish ▸ rfl)
    have heq := eq_of_headPlaces (hheads'.symm.trans hplaces) happend
    rw [← heq, stream_snoc_length, bytes_length] at hle
    omega
  · have hfinish : (w.fill growth).conn = c := hfill.conn.trans (if_neg hdone)
    obtain ⟨q', rest'', hrest'', hplaces, hsum⟩ :=
      hplace.of_some (hfinish ▸ hfill.content ▸ hcontent)
    have heq : before ++ [q] = before' ++ [q'] := by
      apply eq_of_headPlaces (hheads'.symm.trans hplaces)
      rw [happend, hrest'', List.append_assoc]
      rfl
    obtain ⟨hbefore, hq⟩ := List.append_inj' heq rfl
    cases hbefore
    cases hq
    rw [hfinish] at hsum
    omega

theorem not_delimits_stopped (h : x.conn.status ≠ .running) : ¬ Delimits R qs x := by
  intro hdelimits
  obtain ⟨before, rest, calls, -, -, -, hplace⟩ := hdelimits.place
  exact h hplace.running

/-! ## 3. One turn -/

theorem takeWhile_head {head bs more later : List UInt8} {k : Nat} (hh : IsHead head)
    (hbs : bs ++ more = head.drop k ++ later) (hle : head.length ≤ k + bs.length) :
    ∃ later', bs.takeWhile (fun c => decide (c ≠ 0)) = head.drop k ++ later' := by
  obtain ⟨bs', rfl⟩ : head.drop k <+: bs := by
    apply List.prefix_of_prefix_length_le ⟨later, hbs.symm⟩ (List.prefix_append bs more)
    rw [List.length_drop]
    omega
  refine ⟨bs'.takeWhile (fun c => decide (c ≠ 0)), ?_⟩
  apply List.takeWhile_append_of_pos
  intro c hc
  rw [decide_eq_true_eq]
  intro hzero
  exact hh.text (hzero ▸ List.mem_of_mem_drop hc)

theorem Delimits.heads (h : Delimits R qs x) :
    ∃ done later, done ++ later = qs ∧ x.watch.heads = headPlaces 0 done := by
  obtain ⟨before, rest, calls, hqs, -, -, hplace⟩ := h.place
  by_cases hnone : x.watch.conn.m_content = none
  · exact ⟨before, rest, hqs, (hplace.of_none hnone).1⟩
  · obtain ⟨q, rest', rfl, hheads, -⟩ := hplace.of_some hnone
    exact ⟨before ++ [q], rest', by rw [List.append_assoc]; exact hqs, hheads⟩

/-- `k` bytes of the head of `q` are in the packet, and the search for its end stays inside the
received bytes. -/
structure InHead (R reactions : List HttpReaction) (qs before : List HttpMessage) (q : HttpMessage)
    (rest : List HttpMessage) (k : Nat) (w : HttpWatch) (unsent : List UInt8) : Prop
    extends Serving R reactions qs before q rest w unsent where
  lt : k < q.head.length
  waiting : w.conn.Waiting (q.head.take k)
  heads : w.heads = headPlaces 0 before
  consumed : w.consumed = (stream before).length + k
  inside : HttpSocket.HeadEndsInside w.buffer

section
variable {k : Nat}

theorem InHead.received (h : InHead R calls qs before q rest k w unsent) :
    w.buffer.active ++ unsent = q.head.drop k ++ (q.body ++ stream rest) := by
  rw [h.remaining, h.consumed, ← h.append, stream_append, stream_cons, ← List.drop_drop,
    List.drop_left, List.drop_append_of_le_length h.lt.le]

theorem InHead.packet_length (h : InHead R calls qs before q rest k w unsent) :
    (q.head.take k).length = k := by
  have hlt := h.lt
  rw [List.length_take]
  omega

theorem InHead.text (h : InHead R calls qs before q rest k w unsent) :
    w.conn.headSoFar ++ q.head.drop k = q.head := by
  rw [h.waiting.headSoFar, List.take_append_drop]

theorem InHead.sees (h : InHead R calls qs before q rest k w unsent) :
    HttpConnect.SeesOnly true w.buffer :=
  HttpConnect.seesOnly_of_headEndsInside h.inside

theorem InHead.turn_unfound (h : InHead R calls qs before q rest k w unsent)
    (hfind : find headEnd (w.buffer.active.takeWhile (· ≠ 0)) = none) :
    w.turn llhttp growth = { w with
      socket := ⟨⟨w.buffer.readCompleted w.buffer.active.length,
        w.conn.headMissing growth w.buffer.active⟩, true⟩
      consumed := w.consumed + w.buffer.active.length } := by
  have hcontent := @HttpConnect.headMissing_content growth _ h.waiting.content w.buffer.active
  rw [HttpWatch.turn, HttpWatch.search_unfound h.inBounds h.waiting.content h.sees hfind]
  exact if_neg fun hc => hc.2 hcontent

/-- The read ends in the head. -/
theorem InHead.turn_part (h : InHead R calls qs before q rest k w unsent)
    (hlt : k + w.buffer.active.length < q.head.length) :
    Delimits R qs ⟨w.turn llhttp growth, unsent⟩ ↔ k + w.buffer.active.length < 0xffff := by
  have hpart : w.buffer.active <+: q.head.drop k := by
    apply List.prefix_of_prefix_length_le (List.prefix_append _ unsent)
      (h.received ▸ List.prefix_append _ _)
    rw [List.length_drop]
    omega
  have htext : 0 ∉ w.buffer.active := fun hmem =>
    q.isHead.text (List.mem_of_mem_drop (hpart.subset hmem))
  have hfind : find headEnd (w.buffer.active.takeWhile (· ≠ 0)) = none := by
    rw [HttpConnect.takeWhile_of_text htext]
    exact HttpConnect.find_part q.isHead h.received hlt
  rw [h.turn_unfound hfind]
  by_cases hshort : k + w.buffer.active.length < 0xffff
  · apply iff_of_true ?_ hshort
    have hroom : (q.head.take k).length + w.buffer.active.length < 0xffff := by
      rw [h.packet_length]
      exact hshort
    obtain ⟨hwaiting, hsame, -⟩ := HttpConnect.headMissing_waiting growth h.waiting hroom
    have hgrown : q.head.take k ++ w.buffer.active =
        q.head.take (k + w.buffer.active.length) := by
      rw [List.take_add, ← List.prefix_iff_eq_take.mp hpart]
    rw [hgrown] at hwaiting
    have hall := h.inBounds.readCompleted (le_refl w.buffer.active.length)
    refine ⟨hall.rpos_le, ?_, before, q :: rest, calls, h.append, hsame.trans h.called, h.answered,
      .head hlt hwaiting h.heads ?_⟩
    · have hrest := rest_further h.remaining (le_refl _)
      rw [← h.inBounds.readCompleted_active (le_refl _)] at hrest
      exact hrest
    · change w.consumed + _ = _
      rw [h.consumed, Nat.add_assoc]
  · apply iff_of_false ?_ hshort
    apply not_delimits_stopped
    change (w.conn.headMissing growth w.buffer.active).status ≠ .running
    have hbig : 0xffff ≤ (w.conn.append growth w.buffer.active).m_readPacket.wpos := by
      change 0xffff ≤ (w.conn.m_readPacket.append growth w.buffer.active).wpos
      rw [h.waiting.append_wpos, h.packet_length]
      omega
    rw [HttpConnect.headMissing, if_pos hbig]
    exact fun hrun => by cases hrun

/-- What is found is the end of a later head. -/
theorem InHead.turn_past (h : InHead R calls qs before q rest k w unsent)
    (hle : q.head.length ≤ k + w.buffer.active.length) (hpast : q.head.length < k + 4) :
    ¬ Delimits R qs ⟨w.turn llhttp growth, unsent⟩ := by
  intro hdelimits
  cases hfind : find headEnd (w.buffer.active.takeWhile (· ≠ 0)) with
  | none =>
    -- the packet has the whole head, but a connection without `m_content` has only a part of one
    obtain ⟨before', rest', -, hqs', -, -, hplace⟩ := hdelimits.place
    rw [h.turn_unfound hfind] at hplace
    have hcontent := @HttpConnect.headMissing_content growth _ h.waiting.content w.buffer.active
    obtain ⟨hheads, -, hlt⟩ := hplace.of_none hcontent
    have happend : before ++ q :: rest = before' ++ rest' := h.append.trans hqs'.symm
    have hbefore := eq_of_headPlaces (h.heads.symm.trans hheads) happend
    subst hbefore
    rw [List.append_cancel_left_eq] at happend
    have hshort := hlt q (happend ▸ rfl)
    change w.consumed + w.buffer.active.length < _ at hshort
    have hconsumed := h.consumed
    omega
  | some pos =>
    have hfound := @HttpWatch.search_found llhttp growth w h.inBounds h.waiting.content h.sees pos
      hfind
    have hpos : pos + 4 ≤ w.buffer.active.length :=
      (find_le hfind).trans (List.takeWhile_prefix _).length_le
    have hlen : (w.conn.headSoFar ++ w.buffer.active.take (pos + 4)).length = k + (pos + 4) := by
      rw [h.waiting.headSoFar, List.length_append, h.packet_length, List.length_take]
      omega
    obtain ⟨done, later, hqs, hheads⟩ := hdelimits.heads
    change (w.turn llhttp growth).heads = _ at hheads
    rw [(HttpWatch.turn_search w).1, hfound, h.heads] at hheads
    have htext := head_of_headPlaces hheads (h.append.trans hqs.symm)
    rw [htext] at hlen
    omega

/-- The end of the head is found where it is. -/
theorem InHead.search_whole (h : InHead R calls qs before q rest k w unsent)
    (hle : q.head.length ≤ k + w.buffer.active.length) (hk : k + 4 ≤ q.head.length) :
    w.search llhttp growth = { w with
      socket := ⟨⟨w.buffer.readCompleted (q.head.length - k),
        w.conn.headFound llhttp growth (q.head.drop k)⟩, true⟩
      consumed := w.consumed + (q.head.length - k)
      heads := headPlaces 0 (before ++ [q])
      parsed := w.conn.headFound llhttp growth (q.head.drop k) } := by
  obtain ⟨later, hlater⟩ := takeWhile_head q.isHead h.received hle
  have hwhole : w.buffer.active.takeWhile (fun c => decide (c ≠ 0)) ++ [] =
      q.head.drop k ++ later := by rw [List.append_nil, hlater]
  have hlen : (q.head.drop k ++ later).length = q.head.length - k + later.length := by
    rw [List.length_append, List.length_drop]
  obtain ⟨hfind, -⟩ := HttpConnect.find_whole q.isHead hwhole hk (by rw [hlater, hlen]; omega)
  have hpos : q.head.length - 4 - k + 4 = q.head.length - k := by omega
  have htake : w.buffer.active.take (q.head.length - k) = q.head.drop k := by
    have hpart : (q.head.drop k).length = q.head.length - k := List.length_drop
    rw [take_eq_of_append_eq h.received (by omega) hpart.ge, ← hpart, List.take_length]
  have hplaces : headPlaces 0 before ++
      [((stream before).length + k + (q.head.length - k) - q.head.length, q.head)] =
        headPlaces 0 (before ++ [q]) := by
    have hplace : (stream before).length + k + (q.head.length - k) - q.head.length =
        0 + (stream before).length := by omega
    rw [headPlaces_append, hplace]
    rfl
  rw [HttpWatch.search_found h.inBounds h.waiting.content h.sees hfind, hpos, htake, h.text,
    h.heads, ← hplaces, h.consumed]

/-- The head is found, and refused. -/
theorem InHead.turn_refused (h : InHead R calls qs before q rest k w unsent)
    (hle : q.head.length ≤ k + w.buffer.active.length) (hk : k + 4 ≤ q.head.length)
    (hok : (llhttp w.conn.mParser.m_url q.head).ok = false) :
    ¬ Delimits R qs ⟨w.turn llhttp growth, unsent⟩ := by
  have hclosed : (w.conn.headFound llhttp growth (q.head.drop k)).status = .closed :=
    (HttpConnect.headFound_closes (h.text.symm ▸ hok)).1
  apply not_delimits_stopped
  change (w.turn llhttp growth).conn.status ≠ .running
  rw [HttpWatch.turn, h.search_whole hle hk, if_neg fun hrun => by cases hclosed.symm.trans hrun.1]
  exact fun hrun => by cases hclosed.symm.trans hrun

/-- The head is found and accepted: the connection has to take the body to be as long as it is. -/
theorem InHead.turn_accepted (h : InHead R calls qs before q rest k w unsent)
    (hrep : Reports llhttp qs) (hle : q.head.length ≤ k + w.buffer.active.length)
    (hk : k + 4 ≤ q.head.length) (hok : (llhttp w.conn.mParser.m_url q.head).ok = true) :
    Delimits R qs ⟨w.turn llhttp growth, unsent⟩ ↔ q.residue = q.body.length := by
  have haccepted : HttpConnect.Accepted w.conn
      (w.conn.headFound llhttp growth (q.head.drop k)) (llhttp w.conn.mParser.m_url q.head) :=
    HttpConnect.headFound_accepted h.waiting.residue (by rw [h.text]) hok
  have hrun := haccepted.status.trans h.waiting.running
  obtain ⟨hmethod, hlength⟩ := hrep q (h.append ▸ by simp) w.conn.mParser.m_url hok
  have hresidue : (w.conn.headFound llhttp growth (q.head.drop k)).m_residue = q.residue := by
    rw [haccepted.residue, HttpConnect.awaited, hlength, HttpMessage.residue]
    simp only [(methodNumber_iff hmethod).1]
  have hbound : q.head.length - k ≤ w.buffer.active.length := by omega
  have hb := h.inBounds.readCompleted hbound
  have hconsumed : w.consumed + (q.head.length - k) = (stream before).length + q.head.length := by
    have hk' := h.consumed
    omega
  rw [HttpWatch.turn, h.search_whole hle hk, if_pos ⟨hrun, haccepted.content⟩]
  by_cases hdelimited : q.residue = q.body.length
  · apply iff_of_true ?_ hdelimited
    have hrest := rest_further h.remaining hbound
    rw [← h.inBounds.readCompleted_active hbound] at hrest
    apply InBody.fill_delimits (j := 0)
    exact ⟨⟨hb, h.append, hrest, h.answered, haccepted.reactions.trans h.called⟩, Nat.zero_le _,
      hrun, haccepted.content, haccepted.method.symm ▸ hmethod,
      hresidue.trans (hdelimited.trans (by simp)), rfl, hconsumed⟩
  · apply iff_of_false ?_ hdelimited
    apply fill_not_delimits hb h.append haccepted.content rfl hconsumed
    have hle' := q.residue_le
    change (w.conn.headFound llhttp growth (q.head.drop k)).m_residue < _
    omega

theorem InHead.turn_iff (h : InHead R calls qs before q rest k w unsent)
    (hrep : Reports llhttp qs) :
    Delimits R qs ⟨w.turn llhttp growth, unsent⟩ ↔ SearchFits llhttp q w := by
  have hlen := h.inBounds.active_length
  have hwpos : w.conn.m_readPacket.wpos = k := h.waiting.wpos.trans h.packet_length
  rcases Nat.lt_or_ge (k + w.buffer.active.length) q.head.length with hlt | hge
  · rw [h.turn_part hlt]
    constructor
    · intro hshort
      exact ⟨h.inside, fun _ => by omega, fun hle => by omega⟩
    · intro hfits
      have hshort := hfits.short
      omega
  · by_cases hfour : k + 4 ≤ q.head.length
    · cases hok : (llhttp w.conn.mParser.m_url q.head).ok with
      | false =>
        apply iff_of_false (h.turn_refused hge hfour hok)
        intro hfits
        exact absurd (hfits.whole (by omega)).2.1 (by rw [hok]; simp)
      | true =>
        rw [h.turn_accepted hrep hge hfour hok, residue_eq_iff]
        constructor
        · intro hdelimited
          exact ⟨h.inside, fun hlt => by omega, fun _ => ⟨by omega, hok, hdelimited⟩⟩
        · intro hfits
          exact (hfits.whole (by omega)).2.2
    · apply iff_of_false (h.turn_past hge (by omega))
      intro hfits
      have hcut := (hfits.whole (by omega)).1
      omega

end

theorem not_delimits_of_search (hb : w.buffer.InBounds) (hreading : w.socket.reading = true)
    (hnone : w.conn.m_content = none) (hout : ¬ HttpSocket.HeadEndsInside w.buffer) :
    ¬ Delimits R qs ⟨w.turn llhttp growth, unsent⟩ := by
  have hsocket := @HttpWatch.turn_socket llhttp growth w hreading
  cases @HttpConnect.not_sound_of_search llhttp growth _ _ hb hnone hout with
  | inl hundefined =>
    apply not_delimits_stopped
    change (w.turn llhttp growth).socket.conn.status ≠ .running
    rw [hsocket]
    exact fun hrun => by cases hundefined.symm.trans hrun
  | inr hpast =>
    intro hdelimits
    have hordered := hdelimits.ordered
    change (w.turn llhttp growth).socket.buffer.rpos ≤ (w.turn llhttp growth).socket.buffer.wpos
      at hordered
    rw [hsocket] at hordered
    exact absurd hordered (Nat.not_le.mpr hpast)

theorem turnFits_iff (hqs : before ++ q :: rest = qs) (hnone : w.conn.m_content = none)
    (hheads : w.heads = headPlaces 0 before) :
    TurnFits llhttp qs ⟨w, unsent⟩ .turn ↔ SearchFits llhttp q w := by
  have hnext : qs[w.heads.length]? = some q := by
    rw [hheads, headPlaces_length, ← hqs]
    simp
  constructor
  · exact fun h => h hnone q hnext
  · intro h _ q' hq'
    obtain rfl := Option.some.inj (hnext.symm.trans hq')
    exact h

theorem Delimits.active_ne (hx : Delimits R qs x) (hsocket : x.watch.socket.Inv)
    (hloop : HttpConnect.loopCond (x.conn, x.buffer) = true) : x.buffer.active ≠ [] := by
  have hb : x.buffer.InBounds := ⟨hx.ordered, hsocket.wpos_le⟩
  have hpos : 0 < x.buffer.getActiveSize := (of_decide_eq_true hloop).1
  rw [← hb.active_length] at hpos
  exact List.ne_nil_of_length_pos hpos

theorem turn_of_body (hrun : w.conn.status = .running) (hcontent : w.conn.m_content ≠ none) :
    w.turn llhttp growth = w.fill growth := by
  have hsearch : w.search llhttp growth = w := if_neg hcontent
  rw [HttpWatch.turn, hsearch]
  exact if_pos ⟨hrun, hcontent⟩

/-- After a turn the requests are still delimited exactly when the turn fits. -/
theorem turn_delimits_iff (hx : Delimits R qs x) (hsocket : x.watch.socket.Inv)
    (hrep : Reports llhttp qs) (hreading : x.watch.socket.reading = true)
    (hloop : HttpConnect.loopCond (x.conn, x.buffer) = true) :
    Delimits R qs ⟨x.watch.turn llhttp growth, x.unsent⟩ ↔ x.TurnFits llhttp qs .turn := by
  obtain ⟨w, unsent⟩ := x
  obtain ⟨before, rest, calls, hqs, hcalled, hanswered, hplace⟩ := hx.place
  have hb : w.buffer.InBounds := ⟨hx.ordered, hsocket.wpos_le⟩
  have hrest : w.buffer.active ++ unsent = (stream qs).drop w.consumed := hx.rest
  change Place before rest w at hplace
  cases hplace with
  | done _ _ hconsumed =>
    -- everything has been read, so the loop is left
    rw [← hqs, List.append_nil, hconsumed, List.drop_length] at hrest
    exact absurd (List.append_eq_nil_iff.mp hrest).1 (hx.active_ne hsocket hloop)
  | @head q rest' _ k hk hwaiting hheads hconsumed =>
    rw [turnFits_iff hqs hwaiting.content hheads]
    by_cases hinside : HttpSocket.HeadEndsInside w.buffer
    · have hin : InHead R calls qs before q rest' k w unsent :=
        ⟨⟨hb, hqs, hrest, hanswered, hcalled⟩, hk, hwaiting, hheads, hconsumed, hinside⟩
      exact hin.turn_iff hrep
    · apply iff_of_false
      · exact not_delimits_of_search hb hreading hwaiting.content hinside
      · exact fun h => hinside h.inside
  | @body q rest' _ j hj hrun hcontent hmethod hresidue hheads hconsumed =>
    rw [turn_of_body hrun hcontent]
    apply iff_of_true
    · apply InBody.fill_delimits
      exact ⟨⟨hb, hqs, hrest, hanswered, hcalled⟩, hj.le, hrun, hcontent, hmethod, hresidue, hheads,
        hconsumed⟩
    · exact fun hnone => absurd hnone hcontent

/-! ## 4. The runs -/

theorem step_read {t : HttpExchange} {r : Read MESSAGE_BUFFER_SIZE}
    (h : x.step llhttp growth (.read r) = some t) :
    r.bytes <+: x.unsent ∧ x.watch.socket.reading = false ∧
      t = ⟨{ x.watch with socket := ⟨⟨x.buffer.receive r, x.conn⟩, true⟩ },
        x.unsent.drop r.bytes.length⟩ := by
  rw [step] at h
  split at h
  · next hnext =>
    obtain ⟨w, hw, rfl⟩ := Option.map_eq_some_iff.mp h
    obtain ⟨s, hs, rfl⟩ := Option.map_eq_some_iff.mp hw
    obtain ⟨hreading, -, rfl⟩ := HttpSocket.step_read hs
    exact ⟨hnext, hreading, rfl⟩
  · cases h

theorem step_turn {t : HttpExchange} (h : x.step llhttp growth .turn = some t) :
    x.watch.socket.reading = true ∧ HttpConnect.loopCond (x.conn, x.buffer) = true ∧
      t = ⟨x.watch.turn llhttp growth, x.unsent⟩ := by
  obtain ⟨w, hw, rfl⟩ := Option.map_eq_some_iff.mp h
  rcases HttpWatch.step_cases hw with ⟨-, hreading, hloop, rfl⟩ | ⟨hne, -⟩
  · exact ⟨hreading, hloop, rfl⟩
  · exact absurd rfl hne

theorem step_leave {t : HttpExchange} (h : x.step llhttp growth .leave = some t) :
    HttpConnect.loopCond (x.conn, x.buffer) = false ∧
      t = ⟨{ x.watch with socket := ⟨⟨x.buffer.reset, x.conn⟩, false⟩ }, x.unsent⟩ := by
  obtain ⟨w, hw, rfl⟩ := Option.map_eq_some_iff.mp h
  obtain ⟨s, hs, rfl⟩ := Option.map_eq_some_iff.mp hw
  obtain ⟨-, hloop, -, rfl⟩ := HttpSocket.step_leave hs
  exact ⟨hloop, rfl⟩

theorem step_inv {t : HttpExchange} {a : HttpAction} (hx : x.watch.socket.Inv)
    (h : x.step llhttp growth a = some t) : t.watch.socket.Inv := by
  have hsocket : ∀ w, x.watch.step llhttp growth a = some w → w.socket.Inv := by
    intro w hw
    have hstep := @HttpWatch.step_socket llhttp growth x.watch a
    rw [hw] at hstep
    exact HttpSocket.step_inv hx hstep.symm
  cases a with
  | read r =>
    rw [step] at h
    split at h
    · obtain ⟨w, hw, rfl⟩ := Option.map_eq_some_iff.mp h
      exact hsocket w hw
    · cases h
  | turn =>
    obtain ⟨w, hw, rfl⟩ := Option.map_eq_some_iff.mp h
    exact hsocket w hw
  | leave =>
    obtain ⟨w, hw, rfl⟩ := Option.map_eq_some_iff.mp h
    exact hsocket w hw
  | reuse => cases h

/-- The place does not depend on the buffer. -/
theorem Place.moved (h : Place before rest w) (b : HttpConnect.Buffer) (reading : Bool) :
    Place before rest { w with socket := ⟨⟨b, w.conn⟩, reading⟩ } := by
  cases h with
  | done hwaiting hheads hconsumed => exact .done hwaiting hheads hconsumed
  | head hk hwaiting hheads hconsumed => exact .head hk hwaiting hheads hconsumed
  | body hj hrun hcontent hmethod hresidue hheads hconsumed =>
    exact .body hj hrun hcontent hmethod hresidue hheads hconsumed

theorem Delimits.read {r : Read MESSAGE_BUFFER_SIZE} (hx : Delimits R qs x)
    (hsocket : x.watch.socket.Inv) (hreading : x.watch.socket.reading = false)
    (hnext : r.bytes <+: x.unsent) :
    Delimits R qs ⟨{ x.watch with socket := ⟨⟨x.buffer.receive r, x.conn⟩, true⟩ },
      x.unsent.drop r.bytes.length⟩ := by
  have hreset : x.buffer.reset = x.buffer := hsocket.rest hreading
  have hnil : x.buffer.active = [] := by
    rw [← hreset]
    rfl
  have hrest := hx.rest
  rw [hnil, List.nil_append] at hrest
  obtain ⟨before, rest, calls, hqs, hcalled, hanswered, hplace⟩ := hx.place
  refine ⟨?_, ?_, before, rest, calls, hqs, hcalled, hanswered, hplace.moved _ _⟩
  · change x.buffer.rpos ≤ _
    rw [(hsocket.rpos_eq hreading).1]
    exact Nat.zero_le _
  · change (x.buffer.receive r).active ++ x.unsent.drop r.bytes.length = _
    rw [← hreset, MessageBuffer.receive_active, List.prefix_iff_eq_append.mp hnext]
    exact hrest

theorem Delimits.leave (hx : Delimits R qs x) (hsocket : x.watch.socket.Inv)
    (hloop : HttpConnect.loopCond (x.conn, x.buffer) = false) :
    Delimits R qs ⟨{ x.watch with socket := ⟨⟨x.buffer.reset, x.conn⟩, false⟩ }, x.unsent⟩ := by
  obtain ⟨before, rest, calls, hqs, hcalled, hanswered, hplace⟩ := hx.place
  have hb : x.buffer.InBounds := ⟨hx.ordered, hsocket.wpos_le⟩
  have hnil : x.buffer.active = [] := by
    have hexit : ¬ (0 < x.buffer.getActiveSize ∧ x.conn.status = .running) :=
      of_decide_eq_false hloop
    have hlen := hb.active_length
    apply List.eq_nil_of_length_eq_zero
    by_contra hpos
    exact hexit ⟨by omega, hplace.running⟩
  have hrest := hx.rest
  rw [hnil] at hrest
  exact ⟨le_refl _, hrest, before, rest, calls, hqs, hcalled, hanswered, hplace.moved _ _⟩

theorem step_delimits_iff {t : HttpExchange} {a : HttpAction} (hrep : Reports llhttp qs)
    (hsocket : x.watch.socket.Inv) (hx : Delimits R qs x)
    (h : x.step llhttp growth a = some t) : Delimits R qs t ↔ x.TurnFits llhttp qs a := by
  cases a with
  | read r =>
    obtain ⟨hnext, hreading, rfl⟩ := step_read h
    exact iff_of_true (hx.read hsocket hreading hnext) trivial
  | turn =>
    obtain ⟨hreading, hloop, rfl⟩ := step_turn h
    exact turn_delimits_iff hx hsocket hrep hreading hloop
  | leave =>
    obtain ⟨hloop, rfl⟩ := step_leave h
    exact iff_of_true (hx.leave hsocket hloop) trivial
  | reuse => cases h

theorem start_delimits {c : HttpConnect} (hc : c.Waiting []) (b : HttpConnect.Buffer)
    (qs : List HttpMessage) : Delimits c.reactions qs (start c b qs) :=
  ⟨le_refl _, rfl, [], qs, [], rfl, (List.append_nil _).symm, .nil, Place.idle hc rfl rfl qs⟩

/-- One call has been made for each of the requests, and their heads are the heads that were
parsed. -/
def Served (R : List HttpReaction) (qs : List HttpMessage) (x : HttpExchange) : Prop :=
  x.watch.heads = headPlaces 0 qs ∧ ∃ calls, x.conn.reactions = R ++ calls ∧
    List.Forall₂ HttpReaction.Answers calls qs

/-- When the loop has read all that the client sends, all requests have been answered. -/
theorem Delimits.served (hx : Delimits R qs x) (hsocket : x.watch.socket.Inv)
    (hreading : x.watch.socket.reading = false) (hunsent : x.unsent = []) : Served R qs x := by
  obtain ⟨before, rest, calls, hqs, hcalled, hanswered, hplace⟩ := hx.place
  have hreset : x.buffer.reset = x.buffer := hsocket.rest hreading
  have hrest := hx.rest
  rw [hunsent, ← hreset] at hrest
  have hread : (stream qs).length ≤ x.watch.consumed := List.drop_eq_nil_iff.mp hrest.symm
  have hlen : (stream qs).length = (stream before).length + (stream rest).length := by
    rw [← hqs, stream_append, List.length_append]
  cases hplace with
  | done _ hheads _ =>
    rw [List.append_nil] at hqs
    subst hqs
    exact ⟨hheads, calls, hcalled, hanswered⟩
  | head hk _ _ hconsumed =>
    rw [stream_cons, List.length_append] at hlen
    omega
  | body hj _ _ _ _ _ hconsumed =>
    rw [stream_cons, List.length_append, List.length_append] at hlen
    omega

theorem InHead.turn_consumes {k : Nat} (h : InHead R calls qs before q rest k w unsent)
    (hne : w.buffer.active ≠ []) : w.consumed < (w.turn llhttp growth).consumed := by
  have hpos := List.length_pos_of_ne_nil hne
  cases hfind : find headEnd (w.buffer.active.takeWhile (· ≠ 0)) with
  | none =>
    rw [h.turn_unfound hfind]
    change w.consumed < w.consumed + _
    omega
  | some pos =>
    have hsearch := @HttpWatch.search_found llhttp growth w h.inBounds h.waiting.content h.sees pos
      hfind
    have hturn := (@HttpWatch.turn_search llhttp growth w).2
    rw [hsearch] at hturn
    change w.consumed + (pos + 4) ≤ _ at hturn
    omega

/-- A turn that fits uses up at least one byte. -/
theorem turn_shortens {t : HttpExchange} (hrep : Reports llhttp qs) (hx : Delimits R qs x)
    (hsocket : x.watch.socket.Inv) (h : x.step llhttp growth .turn = some t)
    (hfits : x.TurnFits llhttp qs .turn) :
    t.buffer.active.length < x.buffer.active.length := by
  obtain ⟨hreading, hloop, rfl⟩ := step_turn h
  have ht : Delimits R qs ⟨x.watch.turn llhttp growth, x.unsent⟩ :=
    (turn_delimits_iff hx hsocket hrep hreading hloop).mpr hfits
  have hne := hx.active_ne hsocket hloop
  have hconsumed : x.watch.consumed < (x.watch.turn llhttp growth).consumed := by
    obtain ⟨w, unsent⟩ := x
    obtain ⟨before, rest, calls, hqs, hcalled, hanswered, hplace⟩ := hx.place
    have hb : w.buffer.InBounds := ⟨hx.ordered, hsocket.wpos_le⟩
    have hrest : w.buffer.active ++ unsent = (stream qs).drop w.consumed := hx.rest
    change Place before rest w at hplace
    cases hplace with
    | done _ _ hconsumed =>
      rw [← hqs, List.append_nil, hconsumed, List.drop_length] at hrest
      exact absurd (List.append_eq_nil_iff.mp hrest).1 hne
    | head hk hwaiting hheads hconsumed =>
      have hinside := ((turnFits_iff hqs hwaiting.content hheads).mp hfits).inside
      have hin : InHead R calls qs before _ _ _ w unsent :=
        ⟨⟨hb, hqs, hrest, hanswered, hcalled⟩, hk, hwaiting, hheads, hconsumed, hinside⟩
      exact hin.turn_consumes hne
    | body hj hrun hcontent _ hresidue _ _ =>
      have hpos := List.length_pos_of_ne_nil hne
      obtain ⟨n, c, hfill⟩ := HttpWatch.fill_filled growth hb
      have htaken := hfill.taken
      change w.consumed < (w.turn llhttp growth).consumed
      rw [turn_of_body hrun hcontent, hfill.consumed]
      change 0 < w.buffer.active.length at hpos
      omega
  -- what is left of the stream has become shorter, and the client has sent nothing
  have hlen := congrArg List.length hx.rest
  have hlen' := congrArg List.length ht.rest
  rw [List.length_append, List.length_drop] at hlen hlen'
  have hpos := List.length_pos_of_ne_nil hne
  change (x.watch.turn llhttp growth).buffer.active.length + x.unsent.length = _ at hlen'
  change (x.watch.turn llhttp growth).buffer.active.length < _
  change _ = (stream qs).length - (x.watch.turn llhttp growth).consumed at hlen'
  omega

/-- In a run the requests are delimited in every state exactly when all turns fit; then each turn
uses up bytes, and when all that the client sends has been read, all requests have been answered. -/
theorem delimits_iff {c : HttpConnect} {b : HttpConnect.Buffer} (hc : c.Waiting [])
    (hrep : Reports llhttp qs) (actions : List HttpAction) :
    (Always (Delimits c.reactions qs) (step llhttp growth) (start c b qs) actions ↔
      Meets (TurnFits llhttp qs) (step llhttp growth) (start c b qs) actions) ∧
    (Meets (TurnFits llhttp qs) (step llhttp growth) (start c b qs) actions →
      ∀ x, run (step llhttp growth) (start c b qs) actions = some x →
        (∀ t, x.step llhttp growth .turn = some t → x.TurnFits llhttp qs .turn →
          t.buffer.active.length < x.buffer.active.length) ∧
        (x.watch.socket.reading = false → x.unsent = [] → Served c.reactions qs x)) := by
  have hiff : Always (Delimits c.reactions qs) (step llhttp growth) (start c b qs) actions ↔
      Meets (TurnFits llhttp qs) (step llhttp growth) (start c b qs) actions :=
    always_iff_meets (I := fun x => x.watch.socket.Inv) (fun _ _ _ hx h => step_inv hx h)
      (fun _ _ _ hsocket hx h => step_delimits_iff hrep hsocket hx h)
      (HttpSocket.resting_inv c b) (start_delimits hc b qs) actions
  refine ⟨hiff, ?_⟩
  intro hmeets x hrun
  have hx : Delimits c.reactions qs x := (hiff.mpr hmeets).reached hrun
  have hsocket : x.watch.socket.Inv :=
    Reachable.invariant (I := fun x => x.watch.socket.Inv) (fun _ _ _ hx h => step_inv hx h)
      ⟨actions, hrun⟩ (HttpSocket.resting_inv c b)
  constructor
  · intro t ht hfits
    exact turn_shortens hrep hx hsocket ht hfits
  · intro hreading hunsent
    exact hx.served hsocket hreading hunsent

theorem root_text : ∀ c ∈ ascii "/", IsTargetChar c := by
  unfold IsTargetChar
  decide +kernel

/-- A GET request, a POST request with a body, and a PUT request with the head of the GET request as
its body. -/
def plainGet : HttpMessage where
  method := ascii "GET"
  target := ascii "/"
  fields := [(ascii "Host", ascii " a")]
  body := []
  method_text := by unfold IsNameChar; decide +kernel
  target_ne := by decide
  target_text := root_text
  name_text := by unfold IsNameChar; decide +kernel
  value_text := by unfold IsValueChar; decide +kernel
  length_eq := by decide +kernel
  body_eq := fun _ => rfl
  not_chunked := by decide +kernel

def formPost : HttpMessage where
  method := ascii "POST"
  target := ascii "/"
  fields := [(ascii "Host", ascii " a"), (ascii "Content-Length", ascii " 7")]
  body := ascii "name=zs"
  method_text := by unfold IsNameChar; decide +kernel
  target_ne := by decide
  target_text := root_text
  name_text := by unfold IsNameChar; decide +kernel
  value_text := by unfold IsValueChar; decide +kernel
  length_eq := by decide +kernel
  body_eq := fun h => absurd h (by decide +kernel)
  not_chunked := by decide +kernel

def hidingPut : HttpMessage where
  method := ascii "PUT"
  target := ascii "/"
  fields := [(ascii "Host", ascii " a"), (ascii "Content-Length", ascii " 27")]
  body := plainGet.head
  method_text := by unfold IsNameChar; decide +kernel
  target_ne := by decide
  target_text := root_text
  name_text := by unfold IsNameChar; decide +kernel
  value_text := by unfold IsValueChar; decide +kernel
  length_eq := by decide +kernel
  body_eq := fun h => absurd h (by decide +kernel)
  not_chunked := by decide +kernel

/-- A parser that accepts their heads. -/
def threeHeads : Llhttp := fun url text =>
  if text = plainGet.head then ⟨true, HTTP_GET, 0, some 4, ⟨false, (0, 1), (0, 0)⟩⟩
  else if text = formPost.head then ⟨true, HTTP_POST, 7, some 5, ⟨false, (0, 1), (0, 0)⟩⟩
  else if text = hidingPut.head then ⟨true, 4, 27, some 4, ⟨false, (0, 1), (0, 0)⟩⟩
  else ⟨false, 0, 0, none, url⟩

/-- The POST request up to its fourth last byte, and the rest with the GET request behind it. -/
def postRead : Read MESSAGE_BUFFER_SIZE :=
  ⟨formPost.head ++ ascii "name", by decide, by decide⟩

def postGetRead : Read MESSAGE_BUFFER_SIZE :=
  ⟨ascii "=zs" ++ plainGet.bytes, by decide, by decide⟩

def hidingPutRead : Read MESSAGE_BUFFER_SIZE := ⟨hidingPut.bytes, by decide, by decide⟩

def serving (qs : List HttpMessage) : HttpExchange :=
  start (HttpConnect.create 0) (MessageBuffer.create MESSAGE_BUFFER_SIZE) qs

def served (qs : List HttpMessage) (actions : List HttpAction) : Option HttpExchange :=
  run (step threeHeads fun _ size => size) (serving qs) actions

def postAndGet : List HttpAction :=
  [.read postRead, .turn, .leave, .read postGetRead, .turn, .turn, .leave]

theorem delimits_iff_postAndGet :
    ∃ x, served [formPost, plainGet] postAndGet = some x ∧ Served [] [formPost, plainGet] x := by
  have hwaiting : (HttpConnect.create 0).Waiting [] := ⟨rfl, rfl, rfl, rfl, rfl⟩
  have hrep : Reports threeHeads [formPost, plainGet] := by
    intro q hq url _
    rcases List.mem_pair.mp hq with rfl | rfl
    · have hne : formPost.head ≠ plainGet.head := by decide +kernel
      rw [threeHeads, if_neg hne, if_pos rfl]
      exact ⟨by decide, rfl⟩
    · rw [threeHeads, if_pos rfl]
      exact ⟨by decide, rfl⟩
  have heval : (served [formPost, plainGet] postAndGet).any (fun x =>
      decide (x.watch.socket.reading = false ∧ x.unsent = [])) = true := by decide +kernel
  have hallowed : Allowed (TurnFits threeHeads [formPost, plainGet])
      (step threeHeads fun _ size => size) (serving [formPost, plainGet]) postAndGet := by
    decide +kernel
  obtain ⟨x, hx, hend⟩ := (Option.any_eq_true _ _).mp heval
  obtain ⟨hreading, hunsent⟩ := of_decide_eq_true hend
  exact ⟨x, hx, ((delimits_iff hwaiting hrep postAndGet).2 hallowed.meets x hx).2 hreading hunsent⟩

/-- The body of the PUT request is parsed as the head of a request. -/
theorem put_body_parsed_as_head :
    ∃ x, served [hidingPut] [.read hidingPutRead, .turn, .turn, .leave] = some x ∧
      x.watch.heads = [(0, hidingPut.head), (hidingPut.head.length, hidingPut.body)] ∧
      ¬ Delimits [] [hidingPut] x := by
  have heval : (served [hidingPut] [.read hidingPutRead, .turn, .turn, .leave]).any (fun x =>
      decide (x.watch.heads = [(0, hidingPut.head), (hidingPut.head.length, hidingPut.body)])) =
        true := by decide +kernel
  obtain ⟨x, hx, hheads⟩ := (Option.any_eq_true _ _).mp heval
  have hboth := of_decide_eq_true hheads
  refine ⟨x, hx, hboth, ?_⟩
  intro hdelimits
  obtain ⟨done, later, happend, hplaces⟩ := hdelimits.heads
  -- there is one request, and two heads have been parsed
  have hone := congrArg List.length happend
  have htwo := congrArg List.length (hplaces.symm.trans hboth)
  rw [headPlaces_length] at htwo
  rw [List.length_append] at hone
  change _ = 2 at htwo
  change _ = 1 at hone
  omega

end HttpExchange

end LuaServer
