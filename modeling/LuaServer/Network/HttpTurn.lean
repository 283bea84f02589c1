import LuaServer.Network.HttpReader
import LuaServer.Network.HttpRequest

/-!
# HttpTurn — what a turn does with a request

Between two turns a connection has a part of a head in its packet, or the head and a part of the
body behind it.  The lemmas here say how it gets from one to the other, when the search of one read
finds the end of the head, and when the views show what the request asks for.
-/

open Reasoning

namespace LuaServer

namespace HttpConnect

open HttpRequest

/-! ## 1. The states between two turns -/

/-- The connection has read `w` of a head. -/
structure Waiting (c : HttpConnect) (w : List UInt8) : Prop where
  running : c.status = .running
  content : c.m_content = none
  residue : c.m_residue = 0
  storage : c.m_readPacket.storage = w
  wpos : c.m_readPacket.wpos = w.length

/-- The parser holds what the head of the request says. -/
structure Knows (p : HttpParser) (q : HttpRequest) : Prop where
  method : p.method = q.method
  content_length : p.content_length.toNat = q.body.length
  path : p.m_url.path = (q.pathOffset, q.path.length)
  haveParam : p.m_url.haveParam = true ↔ q.query ≠ []
  query : q.query ≠ [] → p.m_url.query = (q.pathOffset + q.path.length + 1, q.query.length)

/-- The connection has the head of a request and `j` bytes of its body.  The views were taken from
`block`, when the packet had the capacity `cap`. -/
structure InBody (c : HttpConnect) (q : HttpRequest) (j cap block : Nat) : Prop where
  running : c.status = .running
  le : j ≤ q.body.length
  residue : c.m_residue = (q.body.length - j : Nat)
  storage : c.m_readPacket.storage = q.head ++ q.body.take j
  wpos : c.m_readPacket.wpos = q.head.length + j
  content : c.m_content = some ⟨block, q.head.length⟩
  url : c.mParser.m_buff = some ⟨block, q.targetOffset⟩
  knows : Knows c.mParser q
  kept_or_moved :
    c.m_readPacket.block = block ∧ c.m_readPacket.capacity = cap ∧ q.head.length + j ≤ cap ∨
      block < c.m_readPacket.block ∧ cap < q.head.length + j

variable {llhttp : Llhttp} {growth : Nat → Nat → Nat} {c : HttpConnect} {q : HttpRequest}

theorem Waiting.append_storage {w : List UInt8} (h : c.Waiting w) (src : List UInt8) :
    (c.m_readPacket.append growth src).storage = w ++ src := by
  rw [ReadPacket.append_storage _ _ _ (by rw [h.wpos, h.storage]), h.storage]

theorem Waiting.append_wpos {w : List UInt8} (h : c.Waiting w) (src : List UInt8) :
    (c.m_readPacket.append growth src).wpos = w.length + src.length := by
  rw [ReadPacket.append_wpos, h.wpos]

theorem Waiting.headSoFar {w : List UInt8} (h : c.Waiting w) : c.headSoFar = w := by
  rw [HttpConnect.headSoFar, h.storage, h.wpos, List.take_length]

theorem Waiting.text {w : List UInt8} (h : c.Waiting w) (src : List UInt8) :
    (c.m_readPacket.append growth src).storage.take (c.m_readPacket.append growth src).wpos =
      w ++ src :=
  (c.append_headSoFar growth src).trans (by rw [h.headSoFar])

variable (growth) in
theorem headMissing_waiting {w src : List UInt8} (h : c.Waiting w)
    (hlt : w.length + src.length < 0xffff) :
    (c.headMissing growth src).Waiting (w ++ src) ∧
      (c.headMissing growth src).reactions = c.reactions ∧
      (c.headMissing growth src).m_readPacket = c.m_readPacket.append growth src := by
  have hle : ¬ 0xffff ≤ (c.append growth src).m_readPacket.wpos := by
    show ¬ 0xffff ≤ (c.m_readPacket.append growth src).wpos
    rw [h.append_wpos]
    omega
  unfold headMissing
  simp only [if_neg hle]
  refine ⟨⟨h.running, h.content, h.residue, h.append_storage src, ?_⟩, rfl, rfl⟩
  exact (h.append_wpos src).trans List.length_append.symm

variable (llhttp) in
theorem parseHead_knows (htext : c.m_readPacket.storage.take c.m_readPacket.wpos = q.head)
    (hparsed : ∀ url, ParsedAs (llhttp url q.head) q) :
    (c.parseHead llhttp).1 = true ∧ Knows (c.parseHead llhttp).2.mParser q ∧
      (c.parseHead llhttp).2.mParser.m_buff = some ⟨c.m_readPacket.block, q.targetOffset⟩ := by
  obtain ⟨hok, hmethod, hlength, hurl, hpath, hparam, hquery⟩ := hparsed c.mParser.m_url
  unfold parseHead
  simp only [htext, HttpParser.parser, hurl, ReadPacket.contents, Nat.zero_add]
  exact ⟨hok, ⟨hmethod, hlength, hpath, hparam, hquery⟩, trivial⟩

theorem Knows.contentLen (h : Knows c.mParser q) : c.contentLen = q.body.length := by
  unfold HttpConnect.contentLen
  rw [h.content_length]
  exact toInt32_of_lt q.body_lt

theorem headParsed_eq (hknows : Knows c.mParser q) (hresidue : c.m_residue = 0) :
    c.headParsed true = { c with m_residue := q.body.length } := by
  have hok : ¬ true = false := by decide
  unfold headParsed
  rw [if_neg hok, hknows.contentLen, hknows.method]
  unfold method
  cases hpost : q.isPost with
  | false =>
    rw [q.body_of_get hpost]
    show c = { c with m_residue := 0 }
    rw [← hresidue]
  | true => rfl

variable (llhttp growth) in
theorem headFound_inBody {w src : List UInt8} (h : c.Waiting w) (hhead : w ++ src = q.head)
    (hparsed : ∀ url, ParsedAs (llhttp url q.head) q) :
    (c.headFound llhttp growth src).InBody q 0 (c.m_readPacket.append growth src).capacity
        (c.m_readPacket.append growth src).block ∧
      (c.headFound llhttp growth src).reactions = c.reactions ∧
      (c.headFound llhttp growth src).m_readPacket = c.m_readPacket.append growth src := by
  have hstorage : (c.m_readPacket.append growth src).storage = q.head :=
    (h.append_storage src).trans hhead
  have hwpos : (c.m_readPacket.append growth src).wpos = q.head.length := by
    rw [h.append_wpos, ← List.length_append, hhead]
  -- the packet holds the head and nothing else when it is parsed
  have htext : (c.append growth src).m_readPacket.storage.take
      (c.append growth src).m_readPacket.wpos = q.head := (h.text src).trans hhead
  obtain ⟨hok, hknows, hbuff⟩ := parseHead_knows llhttp htext hparsed
  have hfound : c.headFound llhttp growth src =
      { ((c.append growth src).parseHead llhttp).2 with m_residue := q.body.length } := by
    unfold headFound
    simp only
    rw [hok]
    exact headParsed_eq hknows h.residue
  rw [hfound]
  refine ⟨?_, rfl, rfl⟩
  refine ⟨h.running, Nat.zero_le _, rfl, ?_, hwpos, ?_, hbuff, hknows, .inl ⟨rfl, rfl, ?_⟩⟩
  · show (c.m_readPacket.append growth src).storage = _
    rw [hstorage, List.take_zero, List.append_nil]
  · show some (⟨(c.m_readPacket.append growth src).block,
      (c.m_readPacket.append growth src).wpos⟩ : Pointer) = _
    rw [hwpos]
  · have hle := (c.m_readPacket.append growth src).storage_le
    rw [hstorage] at hle
    exact hle

/-! ## 2. The body -/

variable {j cap block : Nat}

theorem InBody.storage_length (h : c.InBody q j cap block) :
    c.m_readPacket.storage.length = q.head.length + j := by
  rw [h.storage, List.length_append, List.length_take, Nat.min_eq_left h.le]

theorem bodyFound_inBody (h : c.InBody q j cap block) {n : Nat} (hn : j + n ≤ q.body.length) :
    (c.bodyFound growth ((q.body.drop j).take n)).InBody q (j + n) cap block := by
  have hlen : ((q.body.drop j).take n).length = n := by
    rw [List.length_take, List.length_drop]
    omega
  have hend : c.m_readPacket.wpos = c.m_readPacket.storage.length := by
    rw [h.wpos, h.storage_length]
  have hneed : c.m_readPacket.storage.length + ((q.body.drop j).take n).length =
      q.head.length + (j + n) := by
    rw [h.storage_length, hlen]
    omega
  refine ⟨h.running, hn, ?_, ?_, ?_, h.content, h.url, h.knows, ?_⟩
  · show c.m_residue - (((q.body.drop j).take n).length : Int) = _
    rw [hlen, h.residue]
    omega
  · show (c.m_readPacket.append growth _).storage = _
    rw [ReadPacket.append_storage _ _ _ hend, h.storage, List.append_assoc, List.take_add]
  · show c.m_readPacket.wpos + ((q.body.drop j).take n).length = _
    rw [hlen, h.wpos, Nat.add_assoc]
  · show (c.m_readPacket.append growth _).block = _ ∧
      (c.m_readPacket.append growth _).capacity = _ ∧ _ ∨
      _ < (c.m_readPacket.append growth _).block ∧ _
    -- a packet that has not moved yet moves when it outgrows the capacity
    rcases h.kept_or_moved with ⟨hblock, hcap, hle⟩ | ⟨hlt, hcap⟩
    · rcases Nat.lt_or_ge cap (q.head.length + (j + n)) with hover | hfits
      · rw [← hcap, ← hneed] at hover
        rw [(c.m_readPacket.append_moved growth hover).2]
        exact .inr ⟨by omega, by omega⟩
      · rw [ge_iff_le, ← hneed, ← hcap] at hfits
        obtain ⟨hcap', hblock'⟩ := c.m_readPacket.append_kept growth hfits
        exact .inl ⟨hblock'.trans hblock, hcap'.trans hcap, by omega⟩
    · exact .inr ⟨hlt.trans_le (c.m_readPacket.le_append_block growth _), by omega⟩

theorem InBody.finish_eq (h : c.InBody q j cap block) (hlt : j < q.body.length) : c.finish = c := by
  have hresidue : ¬ c.m_residue = 0 := by
    rw [h.residue]
    omega
  rw [finish, if_neg hresidue]

theorem InBody.finish_waiting (h : c.InBody q q.body.length cap block) :
    c.finish.Waiting [] ∧ c.finish.reactions = c.reactions ++ [c.completeReaction] ∧
      c.finish.m_readPacket.capacity = c.m_readPacket.capacity := by
  have hresidue : c.m_residue = 0 := by
    rw [h.residue, Nat.sub_self]
    rfl
  rw [finish, if_pos hresidue]
  exact ⟨⟨h.running, rfl, rfl, resize_zero _, rfl⟩, rfl, rfl⟩

variable (growth) in
theorem InBody.takeBody_eq (h : c.InBody q j cap block) {bs more later : List UInt8}
    (hbs : bs ++ more = q.body.drop j ++ later) :
    ∃ c' : HttpConnect, c'.InBody q (j + min (q.body.length - j) bs.length) cap block ∧
      c'.reactions = c.reactions ∧
      c.takeBody growth bs = (c'.finish, bs.drop (min (q.body.length - j) bs.length)) := by
  have hle := h.le
  unfold takeBody
  by_cases hpos : j < q.body.length
  · have hresidue : 0 < c.m_residue := by
      rw [h.residue]
      omega
    have hn : min c.m_residue.toNat bs.length = min (q.body.length - j) bs.length := by
      rw [h.residue, Int.toNat_natCast]
    -- what is taken of the read is what comes next of the body
    have htake : bs.take (min (q.body.length - j) bs.length) =
        (q.body.drop j).take (min (q.body.length - j) bs.length) :=
      take_eq_of_append_eq hbs (Nat.min_le_right _ _)
        (by rw [List.length_drop]; exact Nat.min_le_left _ _)
    simp only [if_pos hresidue, hn, htake]
    exact ⟨_, bodyFound_inBody h (by omega), rfl, rfl⟩
  · have hj : j = q.body.length := by omega
    have hresidue : ¬ 0 < c.m_residue := by
      rw [h.residue]
      omega
    have hzero : min (q.body.length - j) bs.length = 0 := by omega
    rw [if_neg hresidue, hzero]
    exact ⟨c, h, rfl, rfl⟩

/-! ## 3. The call -/

/-- The views show what the request asks for as long as the packet has not moved. -/
theorem InBody.completeReaction_eq (h : c.InBody q q.body.length cap block)
    (hfits : q.bytes.length ≤ cap) :
    c.completeReaction = q.reaction ∧ c.m_readPacket.capacity = cap := by
  rw [bytes, List.length_append] at hfits
  have hkept := h.kept_or_moved.resolve_right (fun hmoved => by omega)
  have hstorage : c.m_readPacket.storage = q.head ++ q.body := by rw [h.storage, List.take_length]
  -- the packet has not moved, so its views are in the block from which they were taken
  have hview : ∀ off len, off + len ≤ q.head.length + q.body.length →
      c.m_readPacket.view ⟨block, off⟩ len = some (((q.head ++ q.body).drop off).take len) := by
    intro off len hle
    rw [ReadPacket.view, if_pos, hstorage]
    rw [hstorage, List.length_append]
    exact ⟨hkept.1.symm, hle⟩
  have hpath : c.path = some q.path := by
    obtain ⟨hle, hslice⟩ := q.path_slice q.body
    unfold HttpConnect.path
    simp only [h.url, h.knows.path, Option.bind_some]
    rw [hview _ _ (by omega), hslice]
  refine ⟨?_, hkept.2.1⟩
  unfold completeReaction reaction
  rw [h.knows.method, hpath]
  unfold method
  cases hpost : q.isPost with
  | true =>
    have hbody : c.body = some q.body := by
      have hlen : toSizeT c.contentLen = q.body.length := by
        have hlt := q.body_lt
        rw [h.knows.contentLen, toSizeT_of_lt (Int.natCast_nonneg _) (by omega), Int.toNat_natCast]
      unfold HttpConnect.body
      rw [h.content, Option.bind_some, hlen, hview _ _ (le_refl _), List.drop_left,
        List.take_length]
    rw [hbody]
    rfl
  | false =>
    have hparam : c.param = some q.query := by
      unfold param
      by_cases hq : q.query = []
      · rw [if_neg, hq]
        rw [h.knows.haveParam]
        exact fun hne => hne hq
      · obtain ⟨hle, hslice⟩ := q.query_slice hq q.body
        simp only [if_pos (h.knows.haveParam.mpr hq), h.url, h.knows.query hq, Option.bind_some]
        rw [hview _ _ (by omega), hslice]
    rw [hparam]
    rfl

/-- In a packet that has moved the views are lost. -/
theorem InBody.completeReaction_ne (h : c.InBody q q.body.length cap block)
    (hover : cap < q.bytes.length) : c.completeReaction ≠ q.reaction := by
  rw [bytes, List.length_append] at hover
  have hmoved := h.kept_or_moved.resolve_left (fun hkept => by omega)
  -- the block number of the view is an old one
  have hpath : c.path = none := by
    unfold HttpConnect.path ReadPacket.view
    simp only [h.url, Option.bind_some]
    rw [if_neg]
    rintro ⟨hblock, -⟩
    omega
  unfold completeReaction reaction
  rw [h.knows.method, hpath]
  unfold method
  cases q.isPost <;> simp [HTTP_GET, HTTP_POST]

/-! ## 4. The search in one read -/

variable {k : Nat} {bs more later : List UInt8} {room : Bool}

theorem find_part {head : List UInt8} (hh : IsHead head) (hbs : bs ++ more = head.drop k ++ later)
    (hlt : k + bs.length < head.length) : find headEnd bs = none := by
  rw [find_eq_none_iff]
  intro i _ hat
  have hle := hat.length_le
  have hfour : headEnd.length = 4 := rfl
  rw [List.length_drop] at hle
  have htake := take_eq_of_append_eq hbs (le_refl bs.length) (by rw [List.length_drop]; omega)
  rw [List.take_length] at htake
  rw [htake] at hat
  have hinside := prefix_drop_of_take hat
  rw [List.drop_drop] at hinside
  have := hh.ends_only _ hinside
  omega

/-- A read that goes to the end of the head or further, from in front of its last four bytes on,
holds that end, and it is the first one. -/
theorem find_whole {head : List UInt8} (hh : IsHead head) (hbs : bs ++ more = head.drop k ++ later)
    (hk : k + 4 ≤ head.length) (hle : head.length ≤ k + bs.length) :
    find headEnd bs = some (head.length - 4 - k) ∧ bs.take (head.length - k) = head.drop k := by
  have hlen : (head.drop k).length = head.length - k := List.length_drop
  have htake : bs.take (head.length - k) = head.drop k := by
    rw [take_eq_of_append_eq hbs (by omega) hlen.ge, ← hlen, List.take_length]
  refine ⟨find_eq_some_iff.mpr ⟨by omega, ?_, fun i hi hat => ?_⟩, htake⟩
  · have hpre : headEnd <+: (bs.take (head.length - k)).drop (head.length - 4 - k) := by
      rw [htake, List.drop_drop, show k + (head.length - 4 - k) = head.length - 4 by omega,
        hh.drop_headEnd]
    exact prefix_drop_of_take hpre
  · have hfour : headEnd.length = 4 := rfl
    have hpre := prefix_drop_take hat (show i + headEnd.length ≤ head.length - k by omega)
    rw [htake, List.drop_drop] at hpre
    have := hh.ends_only _ hpre
    omega

theorem takeWhile_of_text (h : 0 ∉ bs) : bs.takeWhile (fun x => decide (x ≠ 0)) = bs := by
  rw [List.takeWhile_eq_self_iff]
  intro x hx
  rw [decide_eq_true_eq]
  rintro rfl
  exact h hx

theorem turn_fail (hc : c.m_content = none) (htext : 0 ∉ bs) :
    readerTurn llhttp growth false c bs = (c.fail, bs) :=
  turn_blind hc ⟨rfl, htext⟩

theorem turn_missing (hc : c.m_content = none) (htext : 0 ∉ bs) (hfind : find headEnd bs = none) :
    readerTurn llhttp growth true c bs = (c.headMissing growth bs, []) := by
  apply turn_unfound hc (by simp)
  rw [takeWhile_of_text htext, hfind]

theorem turn_found (hc : c.m_content = none) (htext : 0 ∉ bs) {pos : Nat}
    (hfind : find headEnd bs = some pos) :
    readerTurn llhttp growth true c bs =
      if (c.headFound llhttp growth (bs.take (pos + 4))).status = .running ∧
          (c.headFound llhttp growth (bs.take (pos + 4))).m_content ≠ none then
        (c.headFound llhttp growth (bs.take (pos + 4))).takeBody growth (bs.drop (pos + 4))
      else (c.headFound llhttp growth (bs.take (pos + 4)), bs.drop (pos + 4)) := by
  apply turn_parse hc (by simp)
  rw [takeWhile_of_text htext, hfind]

theorem InBody.turn_eq (h : c.InBody q j cap block) :
    readerTurn llhttp growth room c bs = c.takeBody growth bs := by
  apply turn_body h.running
  rw [h.content]
  simp

end HttpConnect

end LuaServer
