import LuaServer.Network.HttpProgress

/-!
# HttpBoundaries — requests cut into reads

A connection keeps what it has read of a head in its packet but searches the end of the head in one
read only, and it keeps views into the packet while the packet grows.  So one call is made for each
request, on a given cut, when no cut falls into the four bytes at the end of a head, no read that
holds a byte of a head fills the buffer, and no body makes the packet outgrow its capacity.
-/

open Reasoning

namespace LuaServer

namespace HttpConnect

open HttpRequest

variable {llhttp : Llhttp} {growth : Nat → Nat → Nat} {c : HttpConnect} {q : HttpRequest}
  {k m : Nat} {bs more : List UInt8} {R : List HttpReaction} {before qs : List HttpRequest}

/-! ## 1. One read -/

/-- The read of `len` bytes at `start` and the heads of the requests from `a` on: a read that holds
a byte of a head does not fill the buffer, and ends in front of the last four bytes of the head or
behind them. -/
def ReadFits (start len : Nat) : Nat → List HttpRequest → Prop
  | _, [] => True
  | a, q :: qs =>
    (start < a + q.head.length → a < start + len → len < MESSAGE_BUFFER_SIZE.toNat ∧
      (start + len + 4 ≤ a + q.head.length ∨ a + q.head.length ≤ start + len)) ∧
    ReadFits start len (a + q.bytes.length) qs

theorem readFits_beyond {start len a : Nat} (qs : List HttpRequest) (h : start + len ≤ a) :
    ReadFits start len a qs := by
  induction qs generalizing a with
  | nil => trivial
  | cons q qs ih => exact ⟨fun _ hlt => by omega, ih (by omega)⟩

theorem stream_cons_length (q : HttpRequest) (qs : List HttpRequest) :
    (stream (q :: qs)).length = q.bytes.length + (stream qs).length := by
  rw [stream, List.map_cons, List.flatten_cons, List.length_append]
  rfl

theorem readFits_append {start len a : Nat} {before qs : List HttpRequest}
    (h : a + (stream before).length ≤ start) :
    ReadFits start len a (before ++ qs) ↔ ReadFits start len (a + (stream before).length) qs := by
  induction before generalizing a with
  | nil => exact Iff.rfl
  | cons q before ih =>
    rw [stream_cons_length] at h ⊢
    have hbytes : q.bytes.length = q.head.length + q.body.length := List.length_append
    have hassoc : a + (q.bytes.length + (stream before).length) =
        a + q.bytes.length + (stream before).length := by omega
    rw [List.cons_append, ReadFits, ih (by omega), hassoc]
    exact and_iff_right fun hlt => by omega

/-- A connection that stands at the place `n` of the stream of the requests. -/
def Stands (growth : Nat → Nat → Nat) (R : List HttpReaction) (m : Nat) (all : List HttpRequest)
    (n : Nat) (more : List UInt8) (c : HttpConnect) : Prop :=
  ∃ before qs k, before ++ qs = all ∧ (stream before).length + k = n ∧
    more = (stream qs).drop k ∧ At growth R m before qs k c

theorem At.running (h : At growth R m before qs k c) : c.status = .running := by
  cases h.place with
  | idle hw _ => exact hw.running
  | head _ hw _ => exact hw.running
  | body _ hbody _ _ _ => exact hbody.running

theorem At.lt (h : At growth R m before (q :: qs) k c) : k < q.bytes.length := by
  have hbytes : q.bytes.length = q.head.length + q.body.length := List.length_append
  have hfour := q.isHead.four_le
  cases h.place with
  | idle => omega
  | head hk => omega
  | body hj => omega

/-- In a read the reader stands at the beginning of the read or of a request. -/
structure Reading (before : List HttpRequest) (start len k : Nat) (bs : List UInt8) : Prop where
  start_le : start ≤ (stream before).length + k
  first : start = (stream before).length + k ∨ k = 0
  ends : (stream before).length + k + bs.length = start + len
  rest : bs = [] → k = 0

theorem localFit_iff {start len : Nat} (hplace : Reading before start len k bs) (hbs : bs ≠ []) :
    LocalFit m (decide (len < MESSAGE_BUFFER_SIZE.toNat)) k bs.length q ↔
      (start < (stream before).length + q.head.length → (stream before).length < start + len →
        len < MESSAGE_BUFFER_SIZE.toNat ∧
        (start + len + 4 ≤ (stream before).length + q.head.length ∨
          (stream before).length + q.head.length ≤ start + len)) ∧
      (q.head.length ≤ k + bs.length → q.bytes.length ≤ max m q.head.length) := by
  obtain ⟨hstart, hfirst, hends, -⟩ := hplace
  have hpos := List.length_pos_of_ne_nil hbs
  have hfour := q.isHead.four_le
  unfold LocalFit
  rw [decide_eq_true_eq]
  refine and_congr_left fun _ => ⟨fun h hlt hlt' => ?_, fun h hk => ?_⟩
  · obtain ⟨hroom, hcut⟩ := h (by omega)
    exact ⟨hroom, by omega⟩
  · obtain ⟨hroom, hcut⟩ := h (by omega) (by omega)
    exact ⟨hroom, by omega⟩

theorem stream_append (before qs : List HttpRequest) :
    stream (before ++ qs) = stream before ++ stream qs := by
  simp only [stream, List.map_append, List.flatten_append]

theorem Reading.next {start len : Nat} (hplace : Reading before start len k bs)
    (hk : k < q.bytes.length) (hle : q.bytes.length ≤ k + bs.length) :
    Reading (before ++ [q]) start len 0 (bs.drop (q.bytes.length - k)) := by
  obtain ⟨hstart, -, hends, -⟩ := hplace
  have hlen : (stream (before ++ [q])).length = (stream before).length + q.bytes.length := by
    rw [stream_append, List.length_append, stream_cons_length]
    rfl
  refine ⟨by omega, .inr rfl, ?_, fun _ => rfl⟩
  rw [hlen, List.length_drop]
  omega

theorem stream_next (hk : k < q.bytes.length) (hle : q.bytes.length ≤ k + bs.length)
    (hstream : bs ++ more = (stream (q :: qs)).drop k) :
    bs.drop (q.bytes.length - k) ++ more = (stream qs).drop 0 := by
  have heq := congrArg (List.drop (q.bytes.length - k)) hstream
  rw [List.drop_append_of_le_length (by omega), List.drop_drop, Nat.add_sub_of_le hk.le,
    stream_cons, ← List.append_assoc] at heq
  exact heq.trans List.drop_left

theorem stream_further (hstream : bs ++ more = (stream qs).drop k) :
    more = (stream qs).drop (k + bs.length) := by
  have heq := congrArg (List.drop bs.length) hstream
  rw [List.drop_left, List.drop_drop] at heq
  exact heq

theorem At.readsTo {start len : Nat} (h : At growth R m before qs k c)
    (hparsed : ParsesHeads llhttp qs) (hstream : bs ++ more = (stream qs).drop k)
    (hplace : Reading before start len k bs) (hfits : ReadFits start len (stream before).length qs)
    (hbodies : BodiesFit (reserved m before) qs) :
    ∃ d, ReadsTo llhttp growth (decide (len < MESSAGE_BUFFER_SIZE.toNat)) c bs d ∧
      Stands growth R m (before ++ qs) (start + len) more d := by
  induction qs generalizing before k c bs with
  | nil =>
    -- nothing comes next, so nothing is left of the read
    have hnil : bs = [] ∧ more = [] := by
      have : bs ++ more = [] := hstream.trans (List.drop_eq_nil_of_le (Nat.zero_le _))
      exact List.append_eq_nil_iff.mp this
    obtain ⟨rfl, rfl⟩ := hnil
    refine ⟨c, readsTo_nil_iff.mpr rfl, before, [], k, rfl, ?_, hstream, h⟩
    exact hplace.ends
  | cons q qs ih =>
    -- one turn, then what it has left of the read
    by_cases hbs : bs = []
    · subst hbs
      exact ⟨c, readsTo_nil_iff.mpr rfl, before, q :: qs, k, rfl, hplace.ends, hstream, h⟩
    have hlocal := (localFit_iff hplace hbs).mpr ⟨hfits.1, fun _ => hbodies.1⟩
    have hturn : Turned growth R m before q qs (decide (len < MESSAGE_BUFFER_SIZE.toNat)) k bs more
        (readerTurn llhttp growth (decide (len < MESSAGE_BUFFER_SIZE.toNat)) c bs) :=
      h.turn (hparsed q List.mem_cons_self) hstream
    rw [← List.singleton_append, ← List.append_assoc]
    simp only [readsTo_turn_iff hbs h.running]
    cases hturn with
    | inside _ hlt hnil hat =>
      rw [hnil]
      refine ⟨_, readsTo_nil_iff.mpr rfl, before, q :: qs, _, by simp, ?_, stream_further hstream,
        hat⟩
      have := hplace.ends
      omega
    | complete _ hle hrest hat =>
      rw [hrest]
      refine ih hat (fun p hp => hparsed p (List.mem_cons_of_mem _ hp))
        (stream_next h.lt hle hstream) (hplace.next h.lt hle) ?_ ?_
      · rw [stream_append, List.length_append, stream_cons_length]
        exact hfits.2
      · rw [reserved_snoc]
        exact hbodies.2
    | unfit hunfit _ => exact absurd hlocal hunfit

/-- With a parser that knows the heads of the requests only, in a packet that takes no more than it
needs, a read fits or the connection is lost. -/
theorem At.fits_or_lost {start len : Nat} {d : HttpConnect} {all : List HttpRequest}
    (h : At ReadPacket.tightGrowth R m before qs k c) (hall : before ++ qs = all)
    (hstream : bs ++ more = (stream qs).drop k) (hplace : Reading before start len k bs)
    (hreads : ReadsTo (knownHeads all) ReadPacket.tightGrowth
      (decide (len < MESSAGE_BUFFER_SIZE.toNat)) c bs d) :
    ReadFits start len (stream before).length qs ∧
        Stands ReadPacket.tightGrowth R m all (start + len) more d ∨
      Lost R all d more := by
  subst hall
  induction qs generalizing before k c bs with
  | nil =>
    have hnil : bs = [] ∧ more = [] := by
      have : bs ++ more = [] := hstream.trans (List.drop_eq_nil_of_le (Nat.zero_le _))
      exact List.append_eq_nil_iff.mp this
    obtain ⟨rfl, rfl⟩ := hnil
    obtain rfl := readsTo_nil_iff.mp hreads
    exact .inl ⟨trivial, before, [], k, rfl, hplace.ends, hstream, h⟩
  | cons q qs ih =>
    -- the same induction as for a read that fits; the turn decides whether it does
    by_cases hbs : bs = []
    · subst hbs
      obtain rfl := readsTo_nil_iff.mp hreads
      obtain rfl := hplace.rest rfl
      exact .inl ⟨readFits_beyond _ hplace.ends.ge, before, q :: qs, 0, rfl, hplace.ends, hstream,
        h⟩
    have hturn : Turned ReadPacket.tightGrowth R m before q qs
        (decide (len < MESSAGE_BUFFER_SIZE.toNat)) k bs more
        (readerTurn (knownHeads (before ++ q :: qs)) ReadPacket.tightGrowth
          (decide (len < MESSAGE_BUFFER_SIZE.toNat)) c bs) :=
      h.turn (knownHeads_parses _ q (by simp)) hstream
    have hlocal := localFit_iff (m := reserved m before) (q := q) hplace hbs
    rw [readsTo_turn_iff hbs h.running] at hreads
    have hlen : (stream before).length + q.bytes.length = (stream (before ++ [q])).length := by
      rw [stream_append, List.length_append, stream_cons_length]
      rfl
    cases hturn with
    | inside hfit hlt hnil hat =>
      rw [hnil] at hreads
      obtain rfl := readsTo_nil_iff.mp hreads
      have hends := hplace.ends
      exact .inl ⟨⟨(hlocal.mp hfit).1, readFits_beyond _ (by omega)⟩, before, q :: qs, _, rfl,
        by omega, stream_further hstream, hat⟩
    | complete hfit hle hrest hat =>
      rw [hrest] at hreads
      have hnext := ih hat (stream_next h.lt hle hstream) (hplace.next h.lt hle)
      simp only [List.append_assoc, List.singleton_append] at hnext
      rcases hnext hreads with ⟨hfits, hstands⟩ | hlost
      · exact .inl ⟨⟨(hlocal.mp hfit).1, hlen ▸ hfits⟩, hstands⟩
      · exact .inr hlost
    | unfit _ hlost => exact .inr ((hlost rfl).readsTo hreads)

/-! ## 2. All reads -/

/-- The reads reach the connection in order, each in a buffer that holds zeros behind it. -/
def CleanReads (llhttp : Llhttp) (growth : Nat → Nat → Nat) :
    HttpConnect → List (Read MESSAGE_BUFFER_SIZE) → HttpConnect → Prop
  | c, [], d => d = c
  | c, r :: rs, d => ∃ e, (∃ fuel t, echoRead (onMsgbuffer llhttp growth) fuel
      (TcpSocketBase.fresh MESSAGE_BUFFER_SIZE c) r = some t ∧ t.derived = e) ∧
      CleanReads llhttp growth e rs d

/-- One call is made for each request, with its path and its data, and nothing else is done. -/
def AnswersAll (llhttp : Llhttp) (growth : Nat → Nat → Nat) (c : HttpConnect)
    (reads : List (Read MESSAGE_BUFFER_SIZE)) (qs : List HttpRequest) : Prop :=
  ∃ d, CleanReads llhttp growth c reads d ∧ d.reactions = c.reactions ++ qs.map reaction

/-- No read that holds a byte of a head fills the buffer, and none ends inside the last four bytes
of a head. -/
def HeadsFit (qs : List HttpRequest) : Nat → List (Read MESSAGE_BUFFER_SIZE) → Prop
  | _, [] => True
  | start, r :: rs => ReadFits start r.bytes.length 0 qs ∧ HeadsFit qs (start + r.bytes.length) rs

theorem cleanReads_cons_iff {d : HttpConnect} {r : Read MESSAGE_BUFFER_SIZE}
    {rs : List (Read MESSAGE_BUFFER_SIZE)} :
    CleanReads llhttp growth c (r :: rs) d ↔
      ∃ e, ReadsTo llhttp growth (decide (r.bytes.length < MESSAGE_BUFFER_SIZE.toNat)) c r.bytes e ∧
        CleanReads llhttp growth e rs d := by
  rw [CleanReads]
  simp only [echoRead_clean_iff, leavesRoom]

theorem reading_start {n : Nat} (r : Read MESSAGE_BUFFER_SIZE)
    (h : (stream before).length + k = n) : Reading before n r.bytes.length k r.bytes :=
  ⟨h.ge, .inl h.symm, by omega, fun hnil => absurd hnil r.ne_nil⟩

theorem Stands.cleanReads {all : List HttpRequest} {n : Nat} {rs : List (Read MESSAGE_BUFFER_SIZE)}
    (h : Stands growth R m all n (rs.map Read.bytes).flatten c) (hparsed : ParsesHeads llhttp all)
    (hheads : HeadsFit all n rs) (hbodies : BodiesFit m all) :
    ∃ d n', CleanReads llhttp growth c rs d ∧ Stands growth R m all n' [] d := by
  induction rs generalizing n c with
  | nil => exact ⟨c, n, rfl, h⟩
  | cons r rs ih =>
    obtain ⟨before, qs, k, rfl, hn, hstream, hat⟩ := h
    have hplace := reading_start r hn
    have hfits := (readFits_append (by omega)).mp hheads.1
    rw [Nat.zero_add] at hfits
    obtain ⟨e, hreads, hstands⟩ := hat.readsTo
      (fun q hq => hparsed q (List.mem_append_right _ hq)) hstream hplace hfits
      (bodiesFit_append.mp hbodies).2
    obtain ⟨d, n', hd, hend⟩ := ih hstands hheads.2
    exact ⟨d, n', cleanReads_cons_iff.mpr ⟨e, hreads, hd⟩, hend⟩

theorem Lost.cleanReads {all : List HttpRequest} {d : HttpConnect}
    {rs : List (Read MESSAGE_BUFFER_SIZE)} (h : Lost R all c (rs.map Read.bytes).flatten)
    (hreads : CleanReads (knownHeads all) growth c rs d) : Lost R all d [] := by
  induction rs generalizing c with
  | nil =>
    obtain rfl : d = c := hreads
    exact h
  | cons r rs ih =>
    obtain ⟨e, he, hd⟩ := cleanReads_cons_iff.mp hreads
    exact ih (h.readsTo he) hd

theorem Stands.fits_or_lost {all : List HttpRequest} {n : Nat} {d : HttpConnect}
    {rs : List (Read MESSAGE_BUFFER_SIZE)}
    (h : Stands ReadPacket.tightGrowth R m all n (rs.map Read.bytes).flatten c)
    (hreads : CleanReads (knownHeads all) ReadPacket.tightGrowth c rs d) :
    (HeadsFit all n rs ∧ ∃ n', Stands ReadPacket.tightGrowth R m all n' [] d) ∨
      Lost R all d [] := by
  induction rs generalizing n c with
  | nil =>
    obtain rfl : d = c := hreads
    exact .inl ⟨trivial, n, h⟩
  | cons r rs ih =>
    obtain ⟨before, qs, k, hall, hn, hstream, hat⟩ := h
    obtain ⟨e, he, hd⟩ := cleanReads_cons_iff.mp hreads
    -- a connection that one read has lost is not found again by the others
    rcases hat.fits_or_lost hall hstream (reading_start r hn) he with ⟨hfits, hstands⟩ | hlost
    · rcases ih hstands hd with ⟨hheads, hend⟩ | hlost
      · have hread : ReadFits n r.bytes.length 0 all := by
          rw [← hall, readFits_append (by omega), Nat.zero_add]
          exact hfits
        exact .inl ⟨⟨hread, hheads⟩, hend⟩
      · exact .inr hlost
    · exact .inr (hlost.cleanReads hd)

theorem Stands.done {all : List HttpRequest} {n : Nat} (h : Stands growth R m all n [] c) :
    c.reactions = R ++ all.map reaction ∧ BodiesFit m all := by
  obtain ⟨before, qs, k, hall, -, hstream, hat⟩ := h
  cases qs with
  | nil =>
    rw [List.append_nil] at hall
    subst hall
    exact ⟨hat.reactions, hat.fits⟩
  | cons q qs =>
    -- a request that is not complete has bytes that are still to come
    have hlt := hat.lt
    have hlen := congrArg List.length hstream
    rw [List.length_drop, stream_cons_length, List.length_nil] at hlen
    omega

theorem Waiting.stands (hc : c.Waiting []) (qs : List HttpRequest)
    (cut : Cut MESSAGE_BUFFER_SIZE (stream qs)) :
    Stands growth c.reactions c.m_readPacket.capacity qs 0 (cut.reads.map Read.bytes).flatten
      c := by
  refine ⟨[], qs, 0, rfl, rfl, cut.flatten_eq, ?_, trivial, .idle hc ⟨le_refl _, fun _ => rfl⟩⟩
  rw [List.map_nil, List.append_nil]

/-- One call is made for each request, with every parser that parses their heads and every vector,
exactly when the reads fit the heads and the requests fit the packet. -/
theorem answersAll_iff (c : HttpConnect) (hc : c.Waiting []) (qs : List HttpRequest)
    (cut : Cut MESSAGE_BUFFER_SIZE (stream qs)) :
    (∀ llhttp growth, ParsesHeads llhttp qs → AnswersAll llhttp growth c cut.reads qs) ↔
      HeadsFit qs 0 cut.reads ∧ BodiesFit c.m_readPacket.capacity qs := by
  constructor
  · intro h
    -- the parser that knows these heads only and the vector that takes no more than it needs
    obtain ⟨d, hreads, hreactions⟩ :=
      h (knownHeads qs) ReadPacket.tightGrowth (knownHeads_parses qs)
    rcases (hc.stands qs cut).fits_or_lost hreads with ⟨hheads, n, hend⟩ | hlost
    · exact ⟨hheads, hend.done.2⟩
    · exact absurd hreactions hlost.reactions_ne
  · rintro ⟨hheads, hbodies⟩ llhttp growth hparsed
    obtain ⟨d, n, hreads, hend⟩ := (hc.stands qs cut).cleanReads hparsed hheads hbodies
    exact ⟨d, hreads, hend.done.1⟩

def shortGet : HttpRequest where
  isPost := false
  target := ascii "/"
  fields := []
  body := []
  target_text := by unfold IsTargetChar; decide +kernel
  target_path := by decide
  name_text := fun _ h => by cases h
  value_text := fun _ h => by cases h
  length_eq := fun _ h => by cases h
  length_of_post := fun h => by cases h
  body_of_get := fun _ => rfl
  not_chunked := fun _ h => by cases h
  body_text := fun h => by cases h
  head_lt := by decide
  body_lt := by decide

def wholeCut : Cut MESSAGE_BUFFER_SIZE (stream [shortGet]) where
  reads := [⟨stream [shortGet], by decide, by decide⟩]
  flatten_eq := by decide

/-- The request with a cut inside the end of its head. -/
def splitCut : Cut MESSAGE_BUFFER_SIZE (stream [shortGet]) where
  reads := [⟨ascii "GET / HTTP/1.1\r\n", by decide, by decide⟩,
    ⟨ascii "\r\n", by decide, by decide⟩]
  flatten_eq := by decide

/-- A POST request with a body. -/
def namePost : HttpRequest where
  isPost := true
  target := ascii "/form?id=7"
  fields := [(ascii "Host", ascii " h"), (ascii "Content-Length", ascii " 7")]
  body := ascii "name=zs"
  target_text := by unfold IsTargetChar; decide +kernel
  target_path := by decide
  name_text := by unfold IsNameChar; decide +kernel
  value_text := by unfold IsValueChar; decide +kernel
  length_eq := by decide +kernel
  length_of_post := by decide +kernel
  body_of_get := fun h => by cases h
  not_chunked := by decide +kernel
  body_text := by decide
  head_lt := by decide
  body_lt := by decide

/-- The POST request and the GET request behind it, with a cut inside the head of the first and one
inside its body. -/
def postAndGetCut : Cut MESSAGE_BUFFER_SIZE (stream [namePost, shortGet]) where
  reads := [⟨ascii "POST /form?id=7 HTTP/1.1\r\nHost: h\r\nConten", by decide, by decide⟩,
    ⟨ascii "t-Length: 7\r\n\r\nname", by decide, by decide⟩,
    ⟨ascii "=zsGET / HTTP/1.1\r\n\r\n", by decide, by decide⟩]
  flatten_eq := by decide

theorem create_waiting (capacity : Nat) : (create capacity).Waiting [] :=
  ⟨rfl, rfl, rfl, rfl, rfl⟩

theorem wholeCut_fits : HeadsFit [shortGet] 0 wholeCut.reads :=
  ⟨⟨fun _ _ => ⟨by decide, .inr (by decide)⟩, trivial⟩, trivial⟩

theorem shortGet_fits : BodiesFit (create 0).m_readPacket.capacity [shortGet] :=
  ⟨by decide, trivial⟩

theorem postAndGetCut_fits : HeadsFit [namePost, shortGet] 0 postAndGetCut.reads :=
  ⟨⟨fun _ _ => ⟨by decide, .inl (by decide)⟩, fun _ hlt => absurd hlt (by decide), trivial⟩,
    ⟨fun _ _ => ⟨by decide, .inr (by decide)⟩, fun _ hlt => absurd hlt (by decide), trivial⟩,
    ⟨fun hlt => absurd hlt (by decide), fun _ _ => ⟨by decide, .inr (by decide)⟩, trivial⟩, trivial⟩

theorem answersAll_iff_postAndGet :
    AnswersAll (knownHeads [namePost, shortGet]) ReadPacket.tightGrowth (create 0)
        postAndGetCut.reads [namePost, shortGet] ∧
      [namePost, shortGet].map reaction =
        [.onPost (some (ascii "/form")) (some (ascii "name=zs")),
          .onGet (some (ascii "/")) (some [])] := by
  have hbodies : BodiesFit (create 0).m_readPacket.capacity [namePost, shortGet] :=
    ⟨by decide, by decide, trivial⟩
  have hanswers := (answersAll_iff (create 0) (create_waiting 0) _ postAndGetCut).mpr
    ⟨postAndGetCut_fits, hbodies⟩ _ ReadPacket.tightGrowth (knownHeads_parses _)
  exact ⟨hanswers, by decide⟩

/-- The request is answered when it comes in one read, and not when a cut falls into the end of its
head. -/
theorem split_head_not_answered :
    AnswersAll (knownHeads [shortGet]) ReadPacket.tightGrowth (create 0) wholeCut.reads
        [shortGet] ∧
      ¬ AnswersAll (knownHeads [shortGet]) ReadPacket.tightGrowth (create 0) splitCut.reads
        [shortGet] := by
  constructor
  · obtain ⟨d, n, hreads, hend⟩ := ((create_waiting 0).stands _ wholeCut).cleanReads
      (knownHeads_parses _) wholeCut_fits shortGet_fits
    exact ⟨d, hreads, hend.done.1⟩
  · rintro ⟨d, hreads, hreactions⟩
    rcases ((create_waiting 0).stands _ splitCut).fits_or_lost hreads with ⟨hheads, -⟩ | hlost
    · -- the first read ends two bytes in front of the end of the head
      have hcut := (hheads.1.1 (by decide) (by decide)).2
      exact absurd hcut (by decide)
    · exact hlost.reactions_ne hreactions

end HttpConnect

end LuaServer
