import LuaServer.Network.HttpTurn

/-!
# HttpProgress — the place of a connection in its requests

`At` is a connection that has made the calls of the requests behind it, `Lost` one that will never
make those that are still to come.  A turn leads from the one to the other exactly where a cut falls
into the end of a head, a read with a byte of a head fills the buffer, or a request outgrows the
packet; and a lost connection stays lost.
-/

open Reasoning

namespace LuaServer

namespace ReadPacket

/-- A vector that takes no more than it needs. -/
def tightGrowth : Nat → Nat → Nat := fun _ size => size

theorem tight_append_capacity (p : ReadPacket) (src : List UInt8) :
    (p.append tightGrowth src).capacity = max p.capacity (p.storage.length + src.length) := by
  rcases Nat.lt_or_ge p.capacity (p.storage.length + src.length) with h | h
  · rw [(p.append_moved _ h).1, tightGrowth, max_self, max_eq_right h.le]
  · rw [(p.append_kept _ h).1, max_eq_left h]

end ReadPacket

namespace HttpConnect

open HttpRequest

variable {llhttp : Llhttp} {growth : Nat → Nat → Nat} {c : HttpConnect} {q : HttpRequest}
  {j k cap block : Nat} {bs more later : List UInt8} {room : Bool}

/-! ## 1. The place in the requests -/

/-- The capacity that the packet needs for the heads of these requests. -/
def reserved (m : Nat) (qs : List HttpRequest) : Nat :=
  qs.foldl (fun m q => max m q.head.length) m

/-- Each request fits into a packet that has grown for the heads up to its own. -/
def BodiesFit : Nat → List HttpRequest → Prop
  | _, [] => True
  | m, q :: qs => q.bytes.length ≤ max m q.head.length ∧ BodiesFit (max m q.head.length) qs

theorem reserved_snoc (m : Nat) (qs : List HttpRequest) (q : HttpRequest) :
    reserved m (qs ++ [q]) = max (reserved m qs) q.head.length := by
  rw [reserved, List.foldl_append]
  rfl

theorem bodiesFit_append {m : Nat} {qs qs' : List HttpRequest} :
    BodiesFit m (qs ++ qs') ↔ BodiesFit m qs ∧ BodiesFit (reserved m qs) qs' := by
  induction qs generalizing m with
  | nil => exact (and_iff_right trivial).symm
  | cons q qs ih =>
    rw [List.cons_append, BodiesFit, BodiesFit, ih, and_assoc]
    rfl

/-- The packet has at least this capacity; if it never takes more than it needs, exactly this. -/
def HasCapacity (growth : Nat → Nat → Nat) (c : HttpConnect) (n m : Nat) : Prop :=
  n ≤ c.m_readPacket.capacity ∧ (growth = ReadPacket.tightGrowth → c.m_readPacket.capacity = m)

/-- Where a connection stands that has `k` bytes of the requests that come next. -/
inductive Place (growth : Nat → Nat → Nat) (m : Nat) : List HttpRequest → Nat → HttpConnect → Prop
  | idle {qs : List HttpRequest} {c : HttpConnect} : c.Waiting [] → HasCapacity growth c m m →
      Place growth m qs 0 c
  | head {q : HttpRequest} {qs : List HttpRequest} {k : Nat} {c : HttpConnect} :
      k + 4 ≤ q.head.length → c.Waiting (q.head.take k) → HasCapacity growth c m (max m k) →
      Place growth m (q :: qs) k c
  | body {q : HttpRequest} {qs : List HttpRequest} {j cap block : Nat} {c : HttpConnect} :
      j < q.body.length → c.InBody q j cap block → max m q.head.length ≤ cap →
      q.bytes.length ≤ max m q.head.length →
      (growth = ReadPacket.tightGrowth → cap = max m q.head.length) →
      Place growth m (q :: qs) (q.head.length + j) c

/-- A connection that has made the calls for the requests in `before`, in a packet that had the
capacity `m` at the start, and `k` bytes of what comes next. -/
structure At (growth : Nat → Nat → Nat) (R : List HttpReaction) (m : Nat)
    (before qs : List HttpRequest) (k : Nat) (c : HttpConnect) : Prop where
  reactions : c.reactions = R ++ before.map reaction
  fits : BodiesFit m before
  place : Place growth (reserved m before) qs k c

/-- A connection that will never make the calls it is to make, with what is still to come. -/
inductive Lost (R : List HttpReaction) (qs : List HttpRequest) :
    HttpConnect → List UInt8 → Prop
  -- it has made another call
  | offTrack {c : HttpConnect} {more : List UInt8} : ¬ c.reactions <+: R ++ qs.map reaction →
      Lost R qs c more
  -- it is not running any more
  | stopped {c : HttpConnect} {more : List UInt8} : c.status ≠ .running →
      c.reactions ≠ R ++ qs.map reaction → Lost R qs c more
  -- it has missed the end of a head
  | missed {c : HttpConnect} {more w : List UInt8} {before later : List HttpRequest}
      {q : HttpRequest} : qs = before ++ q :: later → c.reactions = R ++ before.map reaction →
      c.Waiting w → q.head.length < w.length + 4 → w ++ more = stream (q :: later) →
      Lost R qs c more
  -- it has views into a packet that moves before the body is complete
  | overfull {c : HttpConnect} {more : List UInt8} {before later : List HttpRequest}
      {q : HttpRequest} {j cap block : Nat} : qs = before ++ q :: later →
      c.reactions = R ++ before.map reaction → j < q.body.length → c.InBody q j cap block →
      cap < q.bytes.length → more = q.body.drop j ++ stream later → Lost R qs c more

variable {R : List HttpReaction} {m : Nat} {before qs : List HttpRequest}

theorem reactions_ne : R ++ before.map reaction ≠ R ++ (before ++ q :: qs).map reaction := by
  intro heq
  have hlen := congrArg List.length heq
  simp only [List.length_append, List.length_map, List.length_cons] at hlen
  omega

theorem not_prefix_of_ne {x : HttpReaction} (hne : x ≠ q.reaction) :
    ¬ R ++ before.map reaction ++ [x] <+: R ++ (before ++ q :: qs).map reaction := by
  rw [List.append_assoc, List.prefix_append_right_inj, List.map_append,
    List.prefix_append_right_inj, List.map_cons, List.cons_prefix_cons]
  exact fun h => hne h.1

theorem Lost.reactions_ne {d : HttpConnect} (h : Lost R qs d []) :
    d.reactions ≠ R ++ qs.map reaction := by
  cases h with
  | offTrack hoff => exact fun heq => hoff (heq ▸ List.prefix_rfl)
  | stopped _ hne => exact hne
  | missed hqs hreactions _ _ _ =>
    subst hqs
    rw [hreactions]
    exact HttpConnect.reactions_ne
  | overfull hqs hreactions _ _ _ _ =>
    subst hqs
    rw [hreactions]
    exact HttpConnect.reactions_ne

/-! ## 2. One turn -/

theorem InBody.step (h : c.InBody q j cap block)
    (hreactions : c.reactions = R ++ before.map reaction) (hfits : BodiesFit m before)
    (hcap : max (reserved m before) q.head.length ≤ cap)
    (hbytes : q.bytes.length ≤ max (reserved m before) q.head.length)
    (htight : growth = ReadPacket.tightGrowth → cap = max (reserved m before) q.head.length)
    (hbs : bs ++ more = q.body.drop j ++ later) :
    j + bs.length < q.body.length ∧ (c.takeBody growth bs).2 = [] ∧
        At growth R m before (q :: qs) (q.head.length + (j + bs.length)) (c.takeBody growth bs).1 ∨
      q.body.length ≤ j + bs.length ∧
        (c.takeBody growth bs).2 = bs.drop (q.body.length - j) ∧
        At growth R m (before ++ [q]) qs 0 (c.takeBody growth bs).1 := by
  obtain ⟨c', hbody, hsame, hturn⟩ := h.takeBody_eq growth hbs
  have hle := h.le
  rw [hturn]
  -- either the read ends in the body or the call is made
  rcases Nat.lt_or_ge (j + bs.length) q.body.length with hlt | hge
  · have hn : min (q.body.length - j) bs.length = bs.length := by omega
    rw [hn] at hbody ⊢
    rw [hbody.finish_eq hlt]
    exact .inl ⟨hlt, List.drop_length, hsame.trans hreactions, hfits,
      .body hlt hbody hcap hbytes htight⟩
  · have hn : min (q.body.length - j) bs.length = q.body.length - j := by omega
    rw [hn, Nat.add_sub_of_le hle] at hbody
    rw [hn]
    obtain ⟨hwaiting, hcall, hkept⟩ := hbody.finish_waiting
    obtain ⟨hreaction, hcapacity⟩ := hbody.completeReaction_eq (hbytes.trans hcap)
    refine .inr ⟨hge, rfl, ?_, ?_, .idle hwaiting ?_⟩
    · rw [hcall, hsame, hreactions, hreaction, List.map_append, List.append_assoc]
      rfl
    · exact bodiesFit_append.mpr ⟨hfits, hbytes, trivial⟩
    · rw [HasCapacity, hkept, hcapacity, reserved_snoc]
      exact ⟨hcap, htight⟩

theorem InBody.step_lost (h : c.InBody q j cap block)
    (hreactions : c.reactions = R ++ before.map reaction) (hover : cap < q.bytes.length)
    (hbs : bs ++ more = q.body.drop j ++ stream qs) :
    Lost R (before ++ q :: qs) (c.takeBody growth bs).1 ((c.takeBody growth bs).2 ++ more) := by
  obtain ⟨c', hbody, hsame, hturn⟩ := h.takeBody_eq growth hbs
  have hle := h.le
  rw [hturn]
  -- the read ends in the body, or a call with lost views is made
  rcases Nat.lt_or_ge (j + bs.length) q.body.length with hlt | hge
  · have hn : min (q.body.length - j) bs.length = bs.length := by omega
    rw [hn] at hbody ⊢
    rw [hbody.finish_eq hlt]
    apply Lost.overfull rfl (hsame.trans hreactions) hlt hbody hover
    have hmore := drop_append_eq_of_append_eq hbs (le_refl bs.length)
      (by rw [List.length_drop]; omega)
    rw [List.drop_drop] at hmore
    exact hmore
  · have hn : min (q.body.length - j) bs.length = q.body.length - j := by omega
    rw [hn, Nat.add_sub_of_le hle] at hbody
    rw [hn]
    obtain ⟨-, hcall, -⟩ := hbody.finish_waiting
    apply Lost.offTrack
    rw [hcall, hsame, hreactions]
    exact not_prefix_of_ne (hbody.completeReaction_ne hover)

/-- What a turn needs on `len` bytes: they leave room for a NUL if they hold a byte of the head, and
they end in front of the last four bytes of the head or behind them; and the request fits. -/
def LocalFit (m : Nat) (room : Bool) (k len : Nat) (q : HttpRequest) : Prop :=
  (k < q.head.length →
    room = true ∧ (k + len + 4 ≤ q.head.length ∨ q.head.length ≤ k + len)) ∧
  (q.head.length ≤ k + len → q.bytes.length ≤ max m q.head.length)

theorem HasCapacity.append {n m' : Nat} (h : HasCapacity growth c n m') {w : List UInt8}
    (hw : c.Waiting w) (src : List UInt8) :
    max n (w.length + src.length) ≤ (c.m_readPacket.append growth src).capacity ∧
      (growth = ReadPacket.tightGrowth → (c.m_readPacket.append growth src).capacity =
        max m' (w.length + src.length)) := by
  have hstorage := (c.m_readPacket.append growth src).storage_le
  have hgrown := c.m_readPacket.le_append_capacity growth src
  rw [hw.append_storage, List.length_append] at hstorage
  refine ⟨max_le (h.1.trans hgrown) hstorage, ?_⟩
  rintro rfl
  rw [ReadPacket.tight_append_capacity, h.2 rfl, hw.storage]

theorem stream_cons (q : HttpRequest) (qs : List HttpRequest) :
    stream (q :: qs) = q.head ++ (q.body ++ stream qs) := by
  rw [stream, List.map_cons, List.flatten_cons, bytes, List.append_assoc]
  rfl

/-- What a turn on `bs` leads to: further in the request, behind it, or to a state that is lost if
the packet takes no more than it needs. -/
inductive Turned (growth : Nat → Nat → Nat) (R : List HttpReaction) (m : Nat)
    (before : List HttpRequest) (q : HttpRequest) (qs : List HttpRequest) (room : Bool) (k : Nat)
    (bs more : List UInt8) (t : HttpConnect × List UInt8) : Prop
  | inside : LocalFit (reserved m before) room k bs.length q → k + bs.length < q.bytes.length →
      t.2 = [] → At growth R m before (q :: qs) (k + bs.length) t.1 →
      Turned growth R m before q qs room k bs more t
  | complete : LocalFit (reserved m before) room k bs.length q → q.bytes.length ≤ k + bs.length →
      t.2 = bs.drop (q.bytes.length - k) → At growth R m (before ++ [q]) qs 0 t.1 →
      Turned growth R m before q qs room k bs more t
  | unfit : ¬ LocalFit (reserved m before) room k bs.length q →
      (growth = ReadPacket.tightGrowth → Lost R (before ++ q :: qs) t.1 (t.2 ++ more)) →
      Turned growth R m before q qs room k bs more t

theorem lost_of_fail (hreactions : c.reactions = R ++ before.map reaction) :
    Lost R (before ++ q :: qs) c.fail more := by
  apply Lost.stopped
  · show HttpStatus.undefined ≠ .running
    decide
  · show c.reactions ≠ _
    rw [hreactions]
    exact HttpConnect.reactions_ne

theorem zero_not_mem_read (hstream : bs ++ more = q.head.drop k ++ (q.body ++ stream qs)) :
    0 ∉ bs := by
  intro hmem
  apply zero_not_mem_stream (q :: qs)
  rw [stream_cons, ← List.take_append_drop k q.head, List.append_assoc, ← hstream]
  exact List.mem_append_right _ (List.mem_append_left _ hmem)

/-- A search in a read that ends in the head. -/
theorem Waiting.turn_part (hw : c.Waiting (q.head.take k))
    (hreactions : c.reactions = R ++ before.map reaction) (hfits : BodiesFit m before)
    (hcap : HasCapacity growth c (reserved m before) (max (reserved m before) k))
    (hstream : bs ++ more = q.head.drop k ++ (q.body ++ stream qs))
    (hlt : k + bs.length < q.head.length) :
    Turned growth R m before q qs true k bs more (readerTurn llhttp growth true c bs) := by
  have hbytes : q.bytes.length = q.head.length + q.body.length := List.length_append
  have hhead : q.head.length < 0xffff := q.head_lt
  have hklen : (q.head.take k).length = k := by
    rw [List.length_take]
    omega
  have hpart := take_eq_of_append_eq hstream (le_refl bs.length)
    (by rw [List.length_drop]; omega)
  rw [List.take_length] at hpart
  have hgrown : q.head.take k ++ bs = q.head.take (k + bs.length) := by
    rw [List.take_add, ← hpart]
  obtain ⟨hwaiting, hsame, hpacket⟩ := headMissing_waiting growth hw
    (show (q.head.take k).length + bs.length < 0xffff by omega)
  rw [turn_missing hw.content (zero_not_mem_read hstream) (find_part q.isHead hstream hlt)]
  rw [hgrown] at hwaiting
  rcases Nat.lt_or_ge q.head.length (k + bs.length + 4) with hmiss | hfit
  · -- the last four bytes are cut: they are in the packet now, where no search looks
    refine .unfit (fun hfit => ?_)
      fun _ => .missed rfl (hsame.trans hreactions) hwaiting ?_ ?_
    · have := (hfit.1 (by omega)).2
      omega
    · rw [List.length_take]
      omega
    · rw [List.nil_append, ← hgrown, List.append_assoc, hstream, stream_cons,
        ← List.append_assoc, List.take_append_drop]
  · refine .inside ⟨fun _ => ⟨rfl, .inl hfit⟩, fun hle => by omega⟩ (by omega) rfl
      ⟨hsame.trans hreactions, hfits, .head hfit hwaiting ?_⟩
    have happend := hcap.append hw bs
    rw [hklen] at happend
    rw [HasCapacity, hpacket]
    refine ⟨(le_max_left _ _).trans happend.1, fun htight => (happend.2 htight).trans ?_⟩
    rw [max_assoc, max_eq_right (Nat.le_add_right k _)]

/-- A search in a read that goes to the end of the head or further. -/
theorem Waiting.turn_whole (hw : c.Waiting (q.head.take k)) (hk : k + 4 ≤ q.head.length)
    (hreactions : c.reactions = R ++ before.map reaction) (hfits : BodiesFit m before)
    (hcap : HasCapacity growth c (reserved m before) (max (reserved m before) k))
    (hparsed : ∀ url, ParsedAs (llhttp url q.head) q)
    (hstream : bs ++ more = q.head.drop k ++ (q.body ++ stream qs))
    (hge : q.head.length ≤ k + bs.length) :
    Turned growth R m before q qs true k bs more (readerTurn llhttp growth true c bs) := by
  have hbytes : q.bytes.length = q.head.length + q.body.length := List.length_append
  obtain ⟨hfind, htake⟩ := find_whole q.isHead hstream hk hge
  obtain ⟨hbody, hsame, hpacket⟩ := headFound_inBody llhttp growth hw
    (List.take_append_drop k q.head) hparsed
  -- the turn goes on with the body
  have hturn : readerTurn llhttp growth true c bs =
      (c.headFound llhttp growth (q.head.drop k)).takeBody growth
        (bs.drop (q.head.length - k)) := by
    have hpos : q.head.length - 4 - k + 4 = q.head.length - k := by omega
    rw [turn_found hw.content (zero_not_mem_read hstream) hfind, hpos, htake]
    exact if_pos ⟨hbody.running, by rw [hbody.content]; simp⟩
  have hrest : bs.drop (q.head.length - k) ++ more = q.body.drop 0 ++ stream qs := by
    rw [drop_append_eq_of_append_eq hstream (by omega) List.length_drop.ge,
      List.drop_eq_nil_of_le List.length_drop.le]
    rfl
  have happend := hcap.append hw (q.head.drop k)
  have hlen : (q.head.take k).length + (q.head.drop k).length = q.head.length := by
    rw [← List.length_append, List.take_append_drop]
  rw [hlen] at happend
  have htight : growth = ReadPacket.tightGrowth →
      (c.m_readPacket.append growth (q.head.drop k)).capacity =
        max (reserved m before) q.head.length := by
    intro ht
    rw [happend.2 ht, max_assoc, max_eq_right (show k ≤ q.head.length by omega)]
  have hdrop : (bs.drop (q.head.length - k)).length = bs.length - (q.head.length - k) :=
    List.length_drop
  rw [hturn]
  by_cases hfit : q.bytes.length ≤ max (reserved m before) q.head.length
  · have hlocal : LocalFit (reserved m before) true k bs.length q :=
      ⟨fun _ => ⟨rfl, .inr hge⟩, fun _ => hfit⟩
    rcases hbody.step (hsame.trans hreactions) hfits happend.1 hfit htight hrest with
      ⟨hlt, hnil, hat⟩ | ⟨hle, hleft, hat⟩
    · apply Turned.inside hlocal (by omega) hnil
      have hplace : q.head.length + (0 + (bs.drop (q.head.length - k)).length) =
          k + bs.length := by omega
      exact hplace ▸ hat
    · refine .complete hlocal (by omega) ?_ hat
      rw [hleft, List.drop_drop]
      congr 1
      omega
  · refine .unfit (fun hlocal => hfit (hlocal.2 hge)) fun ht => ?_
    exact hbody.step_lost (hsame.trans hreactions) (by rw [htight ht]; omega) hrest

theorem Waiting.turn (hw : c.Waiting (q.head.take k)) (hk : k + 4 ≤ q.head.length)
    (hreactions : c.reactions = R ++ before.map reaction) (hfits : BodiesFit m before)
    (hcap : HasCapacity growth c (reserved m before) (max (reserved m before) k))
    (hparsed : ∀ url, ParsedAs (llhttp url q.head) q)
    (hstream : bs ++ more = q.head.drop k ++ (q.body ++ stream qs)) :
    Turned growth R m before q qs room k bs more (readerTurn llhttp growth room c bs) := by
  cases room with
  | false =>
    -- the C string of a full buffer has no end
    rw [turn_fail hw.content (zero_not_mem_read hstream)]
    refine .unfit (fun hfit => ?_) fun _ => lost_of_fail hreactions
    cases (hfit.1 (by omega)).1
  | true =>
    rcases Nat.lt_or_ge (k + bs.length) q.head.length with hlt | hge
    · exact hw.turn_part hreactions hfits hcap hstream hlt
    · exact hw.turn_whole hk hreactions hfits hcap hparsed hstream hge

theorem At.turn (h : At growth R m before (q :: qs) k c)
    (hparsed : ∀ url, ParsedAs (llhttp url q.head) q)
    (hstream : bs ++ more = (stream (q :: qs)).drop k) :
    Turned growth R m before q qs room k bs more (readerTurn llhttp growth room c bs) := by
  obtain ⟨hreactions, hfits, hplace⟩ := h
  rw [stream_cons] at hstream
  -- between two requests the reader is in the next head, with none of its bytes
  cases hplace with
  | idle hw hcap =>
    have hfour := q.isHead.four_le
    exact hw.turn (by omega) hreactions hfits (by rwa [max_eq_left (Nat.zero_le _)]) hparsed hstream
  | head hk hw hcap =>
    rw [List.drop_append_of_le_length (by omega)] at hstream
    exact hw.turn hk hreactions hfits hcap hparsed hstream
  | @body _ _ j cap block _ hj hbody hcap hbytes htight =>
    have hlen : q.bytes.length = q.head.length + q.body.length := List.length_append
    rw [← List.drop_drop, List.drop_left, List.drop_append_of_le_length hj.le] at hstream
    have hlocal : LocalFit (reserved m before) room (q.head.length + j) bs.length q :=
      ⟨fun hlt => by omega, fun _ => hbytes⟩
    rw [hbody.turn_eq]
    rcases hbody.step hreactions hfits hcap hbytes htight hstream with
      ⟨hlt, hnil, hat⟩ | ⟨hle, hleft, hat⟩
    · exact .inside hlocal (by omega) hnil (Nat.add_assoc _ _ _ ▸ hat)
    · refine .complete hlocal (by omega) ?_ hat
      rw [hleft]
      congr 1
      omega

/-! ## 3. A lost connection stays lost -/

theorem finish_reactions (c : HttpConnect) : c.reactions <+: c.finish.reactions := by
  unfold finish
  split
  · exact List.prefix_append _ _
  · exact List.prefix_rfl

theorem takeBody_reactions (c : HttpConnect) (bs : List UInt8) :
    c.reactions <+: (c.takeBody growth bs).1.reactions := by
  unfold takeBody
  split
  · exact finish_reactions (c.bodyFound growth _)
  · exact c.finish_reactions

theorem searchIn_reactions (c : HttpConnect) (bs : List UInt8) :
    c.reactions <+: (c.searchIn llhttp growth room bs).1.reactions := by
  unfold searchIn
  split
  · exact List.prefix_rfl
  · split
    · unfold headFound headParsed
      simp only
      split
      · exact List.prefix_append _ _
      · split <;> exact List.prefix_rfl
    · unfold headMissing
      simp only
      split
      · exact List.prefix_append _ _
      · exact List.prefix_rfl

theorem readerTurn_reactions (c : HttpConnect) (bs : List UInt8) :
    c.reactions <+: (readerTurn llhttp growth room c bs).1.reactions := by
  have hfirst : c.reactions <+:
      (if c.m_content = none then c.searchIn llhttp growth room bs else (c, bs)).1.reactions := by
    split
    · exact searchIn_reactions c bs
    · exact List.prefix_rfl
  have hbody : ∀ s : HttpConnect × List UInt8, c.reactions <+: s.1.reactions →
      c.reactions <+: (if s.1.status = .running ∧ s.1.m_content ≠ none then
        s.1.takeBody growth s.2 else s).1.reactions := by
    intro s hs
    split
    · exact hs.trans (takeBody_reactions s.1 s.2)
    · exact hs
  exact hbody _ hfirst

theorem head_ne_of_longer {text : List UInt8} (hpre : q.head <+: text)
    (hlt : q.head.length < text.length) (p : HttpRequest) : p.head ≠ text := by
  rintro rfl
  obtain ⟨rest, hrest⟩ := hpre
  have hend : headEnd <+: p.head.drop (q.head.length - 4) := by
    rw [← hrest, List.drop_append_of_le_length (Nat.sub_le _ _), q.isHead.drop_headEnd]
    exact List.prefix_append _ _
  have := p.isHead.ends_only _ hend
  have := q.isHead.four_le
  omega

theorem close_ne_reaction (q : HttpRequest) : HttpReaction.close ≠ q.reaction := by
  unfold reaction
  cases q.isPost <;> simp

theorem lost_of_close {d : HttpConnect} (hreactions : c.reactions = R ++ before.map reaction)
    (hclose : d.reactions = c.reactions ++ [.close]) (rest : List UInt8) :
    Lost R (before ++ q :: qs) d rest := by
  apply Lost.offTrack
  rw [hclose, hreactions]
  exact not_prefix_of_ne (close_ne_reaction q)

/-- The packet of a connection that has missed the end of a head grows until it is too big. -/
theorem Waiting.missing_lost {w : List UInt8} (hw : c.Waiting w)
    (hreactions : c.reactions = R ++ before.map reaction) (hmissed : q.head.length < w.length + 4)
    (hstream : w ++ (bs ++ more) = stream (q :: qs)) :
    Lost R (before ++ q :: qs) (c.headMissing growth bs) more := by
  rcases Nat.lt_or_ge (w.length + bs.length) 0xffff with hshort | hlong
  · obtain ⟨hwaiting, hsame, -⟩ := headMissing_waiting growth hw hshort
    apply Lost.missed rfl (hsame.trans hreactions) hwaiting
    · rw [List.length_append]
      omega
    · rw [List.append_assoc, hstream]
  · apply lost_of_close hreactions
    unfold headMissing
    simp only
    rw [if_pos]
    · rfl
    · change 0xffff ≤ (c.m_readPacket.append growth bs).wpos
      rw [hw.append_wpos]
      exact hlong

/-- What it parses holds the whole head and more, and is refused. -/
theorem Waiting.found_refused {w : List UInt8} {pos : Nat} (hw : c.Waiting w)
    (hmissed : q.head.length < w.length + 4) (hstream : w ++ (bs ++ more) = stream (q :: qs))
    (hfind : find headEnd bs = some pos) :
    (knownHeads (before ++ q :: qs) c.mParser.m_url
      (c.headSoFar ++ bs.take (pos + 4))).ok = false := by
  have hle := find_le hfind
  have hfour : headEnd.length = 4 := rfl
  have htake : (bs.take (pos + 4)).length = pos + 4 := by
    rw [List.length_take]
    omega
  have hlen : q.head.length < (w ++ bs.take (pos + 4)).length := by
    rw [List.length_append]
    omega
  have hpre : q.head <+: w ++ bs.take (pos + 4) := by
    have hhead : q.head <+: stream (q :: qs) := by
      rw [stream_cons]
      exact List.prefix_append _ _
    have htaken : w ++ bs.take (pos + 4) <+: stream (q :: qs) := by
      rw [← hstream, List.prefix_append_right_inj]
      exact (List.take_prefix _ _).trans (List.prefix_append _ _)
    exact List.prefix_of_prefix_length_le hhead htaken hlen.le
  rw [hw.headSoFar]
  exact knownHeads_refuses (fun p _ => head_ne_of_longer hpre hlen p) _

/-- A connection that has missed the end of a head never reads the head. -/
theorem Waiting.turn_lost {w : List UInt8} (hw : c.Waiting w)
    (hreactions : c.reactions = R ++ before.map reaction) (hmissed : q.head.length < w.length + 4)
    (hstream : w ++ (bs ++ more) = stream (q :: qs)) :
    Lost R (before ++ q :: qs)
      (readerTurn (knownHeads (before ++ q :: qs)) growth room c bs).1
      ((readerTurn (knownHeads (before ++ q :: qs)) growth room c bs).2 ++ more) := by
  have htext : 0 ∉ bs := by
    intro hmem
    apply zero_not_mem_stream (q :: qs)
    rw [← hstream]
    exact List.mem_append_right _ (List.mem_append_left _ hmem)
  cases room with
  | false =>
    rw [turn_fail hw.content htext]
    exact lost_of_fail hreactions
  | true =>
    cases hfind : find headEnd bs with
    | none =>
      rw [turn_missing hw.content htext hfind]
      exact hw.missing_lost hreactions hmissed hstream
    | some pos =>
      have hrefused : (knownHeads (before ++ q :: qs) c.mParser.m_url
          (c.headSoFar ++ bs.take (pos + 4))).ok = false := hw.found_refused hmissed hstream hfind
      obtain ⟨hstatus, hclose⟩ := @headFound_closes _ growth _ _ hrefused
      rw [turn_found hw.content htext hfind, if_neg]
      · exact lost_of_close hreactions hclose _
      · rw [hstatus]
        simp

theorem Lost.turn {all : List HttpRequest} (h : Lost R all c (bs ++ more))
    (hrun : c.status = .running) :
    Lost R all (readerTurn (knownHeads all) growth room c bs).1
      ((readerTurn (knownHeads all) growth room c bs).2 ++ more) := by
  cases h with
  | offTrack hoff => exact .offTrack fun hon => hoff ((readerTurn_reactions c bs).trans hon)
  | stopped hstopped _ => exact absurd hrun hstopped
  | missed hall hreactions hw hmissed hstream =>
    subst hall
    exact hw.turn_lost hreactions hmissed hstream
  | overfull hall hreactions _ hbody hover hstream =>
    subst hall
    rw [hbody.turn_eq]
    exact hbody.step_lost hreactions hover hstream

theorem Lost.readsTo {all : List HttpRequest} {d : HttpConnect} (h : Lost R all c (bs ++ more))
    (hreads : ReadsTo (knownHeads all) growth room c bs d) : Lost R all d more := by
  obtain ⟨rest, hreturns⟩ := hreads
  have hlost : Lost R all d (rest ++ more) := by
    have hinv := hreturns.invariant (I := fun s => Lost R all s.1 (s.2 ++ more))
      (fun s hs hcond => hs.turn (of_decide_eq_true hcond).2) h
    exact hinv
  have hexit : ¬ (rest ≠ [] ∧ d.status = .running) := of_decide_eq_false hreturns.cond_eq
  -- bytes are left over only by a connection that is not running
  by_cases hrest : rest = []
  · rw [hrest, List.nil_append] at hlost
    exact hlost
  · have hstopped : d.status ≠ .running := fun hrun => hexit ⟨hrest, hrun⟩
    cases hlost with
    | offTrack hoff => exact .offTrack hoff
    | stopped _ hne => exact .stopped hstopped hne
    | missed _ _ hw _ _ => exact absurd hw.running hstopped
    | overfull _ _ _ hbody _ _ => exact absurd hbody.running hstopped

end HttpConnect

end LuaServer
