import LuaServer.Network.HttpWatch

/-!
# HttpViews — the pointers into the packet

`m_content` and the buffer of the URL point into the vector of `m_readPacket` from the moment when a
head is parsed until `complete()` makes views of them.  The appends of the body in between move the
vector when the request outgrows the capacity that it had for the head.
-/

open Reasoning

namespace LuaServer

namespace HttpConnect

variable {llhttp : Llhttp} {growth : Nat → Nat → Nat} {c h : HttpConnect}

/-! ## 1. A head and its body in one packet -/

/-- The pointer is into the block that the packet has now. -/
def IsValid (c : HttpConnect) (p : Pointer) : Prop := p.block = c.m_readPacket.block

/-- `complete()` can make its views: `m_content` and `m_buff` are valid. -/
def ViewsValid (c : HttpConnect) : Prop :=
  ∃ m_content m_buff, c.m_content = some m_content ∧ c.mParser.m_buff = some m_buff ∧
    c.IsValid m_content ∧ c.IsValid m_buff

/-- The packet holds nothing behind the write cursor. -/
def Aligned (c : HttpConnect) : Prop := c.m_readPacket.wpos = c.m_readPacket.storage.length

theorem Aligned.append (hc : c.Aligned) (growth : Nat → Nat → Nat) (src : List UInt8) :
    (c.append growth src).Aligned := by
  change c.m_readPacket.wpos + src.length = (c.m_readPacket.append growth src).storage.length
  rw [ReadPacket.append_storage _ _ _ hc, List.length_append, hc]

/-- A head has been parsed: the pointers have just been taken. -/
structure Parsed (c : HttpConnect) : Prop where
  aligned : c.Aligned
  content : c.m_content = some ⟨c.m_readPacket.block, c.m_readPacket.wpos⟩
  url : c.mParser.method = HTTP_POST → ∃ off, c.mParser.m_buff = some ⟨c.m_readPacket.block, off⟩

/-- `c` has the head that was parsed in `h`, and a part of the body. -/
structure Carries (h c : HttpConnect) : Prop where
  aligned : c.Aligned
  content : c.m_content = h.m_content
  parser : c.mParser = h.mParser
  size : (c.m_readPacket.wpos : Int) + c.m_residue = h.m_readPacket.wpos + h.m_residue
  -- the vector is where it was, or it has moved because it had to
  kept_or_moved :
    c.m_readPacket.block = h.m_readPacket.block ∧
        c.m_readPacket.capacity = h.m_readPacket.capacity ∧
        c.m_readPacket.wpos ≤ h.m_readPacket.capacity ∨
      h.m_readPacket.block < c.m_readPacket.block ∧
        h.m_readPacket.capacity < c.m_readPacket.wpos

theorem Parsed.carries (hh : h.Parsed) : Carries h h := by
  refine ⟨hh.aligned, rfl, rfl, rfl, .inl ⟨rfl, rfl, ?_⟩⟩
  rw [hh.aligned]
  exact h.m_readPacket.storage_le

theorem Carries.bodyFound (hc : Carries h c) (growth : Nat → Nat → Nat) (src : List UInt8) :
    Carries h (c.bodyFound growth src) := by
  have hwpos : (c.bodyFound growth src).m_readPacket.wpos = c.m_readPacket.wpos + src.length := rfl
  have hneed : c.m_readPacket.storage.length + src.length = c.m_readPacket.wpos + src.length := by
    rw [← hc.aligned]
  refine ⟨hc.aligned.append growth src, hc.content, hc.parser, ?_, ?_⟩
  · have hsize := hc.size
    change ((c.m_readPacket.wpos + src.length : Nat) : Int) + (c.m_residue - src.length) = _
    omega
  · rw [hwpos]
    cases hc.kept_or_moved with
    | inl hkept =>
      obtain ⟨hblock, hcap, hle⟩ := hkept
      rcases Nat.lt_or_ge h.m_readPacket.capacity (c.m_readPacket.wpos + src.length) with
        hover | hfits
      · rw [← hcap, ← hneed] at hover
        have hmoved := (c.m_readPacket.append_moved growth hover).2
        right
        change _ < (c.m_readPacket.append growth src).block ∧ _
        omega
      · rw [ge_iff_le, ← hcap, ← hneed] at hfits
        obtain ⟨hcap', hblock'⟩ := c.m_readPacket.append_kept growth hfits
        exact .inl ⟨hblock'.trans hblock, hcap'.trans hcap, by omega⟩
    | inr hmoved =>
      have hle := c.m_readPacket.le_append_block growth src
      right
      change _ < (c.m_readPacket.append growth src).block ∧ _
      omega

/-- When the body is complete, the pointers are valid exactly if head and body have found room. -/
theorem Carries.viewsValid_iff (hh : h.Parsed) (hc : Carries h c) (hdone : c.m_residue = 0)
    (hpost : c.mParser.method = HTTP_POST) :
    c.ViewsValid ↔ h.m_readPacket.wpos + h.m_residue ≤ h.m_readPacket.capacity := by
  have hsize := hc.size
  rw [hdone] at hsize
  obtain ⟨off, hbuff⟩ := hh.url (hc.parser ▸ hpost)
  have hvalid : c.ViewsValid ↔ h.m_readPacket.block = c.m_readPacket.block := by
    constructor
    · intro hviews
      obtain ⟨m_content, m_buff, hcontent, -, hblock, -⟩ := hviews
      rw [hc.content, hh.content] at hcontent
      cases hcontent
      exact hblock
    · intro hblock
      exact ⟨_, _, hc.content.trans hh.content, (congrArg HttpParser.m_buff hc.parser).trans hbuff,
        hblock, hblock⟩
  rw [hvalid]
  cases hc.kept_or_moved with
  | inl hkept => exact iff_of_true hkept.1.symm (by omega)
  | inr hmoved => exact iff_of_false (by omega) (by omega)

/-! ## 2. The turns of the loop -/

/-- `llhttp` calls `on_url` for a POST request that it accepts. -/
def ReportsUrl (llhttp : Llhttp) : Prop :=
  ∀ url text, (llhttp url text).ok = true → (llhttp url text).method = HTTP_POST →
    (llhttp url text).on_url ≠ none

theorem findHead_cases (s : HttpConnect × Buffer) :
    (findHead llhttp growth s).1 = s.1.fail ∨
      (∃ src, (findHead llhttp growth s).1 = s.1.headFound llhttp growth src) ∨
      ∃ src, (findHead llhttp growth s).1 = s.1.headMissing growth src := by
  unfold findHead
  simp only
  split
  · exact .inl rfl
  · split
    · exact .inr (.inl ⟨_, rfl⟩)
    · split
      · exact .inl rfl
      · exact .inr (.inr ⟨_, rfl⟩)

theorem fillBody_cases (s : HttpConnect × Buffer) :
    (fillBody growth s).1 = s.1.fail ∧ s.1.m_residue ≠ 0 ∨
      (∃ src, (fillBody growth s).1 = s.1.bodyFound growth src) ∨ (fillBody growth s).1 = s.1 := by
  unfold fillBody
  simp only
  split
  · next hpos =>
    split
    · exact .inl ⟨rfl, hpos.ne'⟩
    · exact .inr (.inl ⟨_, rfl⟩)
  · exact .inr (.inr rfl)

theorem headFound_parsed (hurl : ReportsUrl llhttp) (hc : c.Aligned) {src : List UInt8}
    (hrun : (c.headFound llhttp growth src).status = .running) :
    (c.headFound llhttp growth src).Parsed := by
  have haligned := hc.append growth src
  obtain ⟨r, hr⟩ : ∃ r, r = llhttp c.mParser.m_url ((c.append growth src).m_readPacket.storage.take
    (c.append growth src).m_readPacket.wpos) := ⟨_, rfl⟩
  have hfound : c.headFound llhttp growth src =
      ((c.append growth src).parseHead llhttp).2.headParsed r.ok := by
    rw [hr]
    rfl
  have hmethod : ((c.append growth src).parseHead llhttp).2.mParser.method = r.method := by
    rw [hr]
    rfl
  have hbuff : ∀ off, r.on_url = some off →
      ((c.append growth src).parseHead llhttp).2.mParser.m_buff =
        some ⟨(c.append growth src).m_readPacket.block, 0 + off⟩ := by
    intro off hoff
    rw [hr] at hoff
    change (llhttp (c.append growth src).mParser.m_url _).on_url = _ at hoff
    simp only [parseHead, HttpParser.parser, hoff]
    rfl
  rw [hfound] at hrun ⊢
  cases hok : r.ok with
  | false =>
    rw [hok] at hrun
    cases hrun
  | true =>
    have hno : ¬ true = false := by decide
    have hpost : r.method = HTTP_POST → ∃ off,
        ((c.append growth src).parseHead llhttp).2.mParser.m_buff =
          some ⟨(c.append growth src).m_readPacket.block, off⟩ := by
      intro hpost
      rw [hr] at hok hpost
      obtain ⟨off, hoff⟩ := Option.ne_none_iff_exists'.mp (hurl _ _ hok hpost)
      rw [← hr] at hoff
      exact ⟨_, hbuff off hoff⟩
    rw [headParsed, if_neg hno]
    split
    · exact ⟨haligned, rfl, fun h => hpost (hmethod ▸ h)⟩
    · exact ⟨haligned, rfl, fun h => hpost (hmethod ▸ h)⟩

theorem zero_aligned (c : HttpConnect) : c.zero.Aligned :=
  congrArg List.length (resize_zero c.m_readPacket.storage).symm

theorem headMissing_aligned (hc : c.Aligned) (src : List UInt8) :
    (c.headMissing growth src).Aligned := by
  unfold headMissing
  simp only
  split <;> exact hc.append growth src

end HttpConnect

/-- The head and the whole body went through one packet. -/
structure CompletedRequest.Whole (d : CompletedRequest) : Prop where
  parsed : d.parsed.Parsed
  carries : HttpConnect.Carries d.parsed d.conn
  residue : d.conn.m_residue = 0

/-- The vector has room for the body when the head has been parsed. -/
def CompletedRequest.HasRoom (d : CompletedRequest) : Prop :=
  d.parsed.m_readPacket.wpos + d.parsed.m_residue ≤ d.parsed.m_readPacket.capacity

instance (d : CompletedRequest) : Decidable d.HasRoom :=
  inferInstanceAs (Decidable (_ ≤ _))

namespace HttpWatch

open HttpConnect

variable {llhttp : Llhttp} {growth : Nat → Nat → Nat} {w t : HttpWatch}

/-- While a body is read its head is the one that was parsed last. -/
structure Inv (w : HttpWatch) : Prop where
  waiting : w.conn.status = .running → w.conn.m_content = none → w.conn.Aligned
  reading : w.conn.status = .running → w.conn.m_content ≠ none →
    w.parsed.Parsed ∧ Carries w.parsed w.conn
  completed : ∀ d ∈ w.completed, d.Whole

theorem start_inv (capacity : Nat) (b : Buffer) : (start (HttpConnect.create capacity) b).Inv :=
  ⟨fun _ _ => rfl, fun _ h => absurd rfl h, fun _ h => absurd h List.not_mem_nil⟩

/-- No head is waiting for its body. -/
theorem inv_of_aligned (hcompleted : ∀ d ∈ t.completed, d.Whole)
    (hrest : t.conn.status = .running → t.conn.m_content = none ∧ t.conn.Aligned) : t.Inv :=
  ⟨fun hrun _ => (hrest hrun).2, fun hrun h => absurd (hrest hrun).1 h, hcompleted⟩

/-- A head is waiting for its body, or the connection is not running. -/
theorem inv_of_carries (hcompleted : ∀ d ∈ t.completed, d.Whole)
    (hbody : t.conn.status = .running →
      t.conn.m_content ≠ none ∧ t.parsed.Parsed ∧ Carries t.parsed t.conn) : t.Inv :=
  ⟨fun hrun h => absurd h (hbody hrun).1, fun hrun _ => (hbody hrun).2, hcompleted⟩

theorem search_inv (hurl : ReportsUrl llhttp) (hw : w.Inv) (hrun : w.conn.status = .running) :
    (w.search llhttp growth).Inv := by
  unfold search
  by_cases hcontent : w.conn.m_content = none
  · have haligned := hw.waiting hrun hcontent
    have hcases := @findHead_cases llhttp growth (w.conn, w.buffer)
    rw [if_pos hcontent]
    generalize findHead llhttp growth (w.conn, w.buffer) = p at hcases
    simp only at hcases ⊢
    by_cases hnone : p.1.m_content = none
    · rw [if_pos hnone]
      apply inv_of_aligned
      · exact hw.completed
      intro hrunning
      refine ⟨hnone, ?_⟩
      change p.1.Aligned
      rcases hcases with hfail | ⟨src, hfound⟩ | ⟨src, hmissing⟩
      · rw [hfail]
        exact haligned
      · change p.1.status = _ at hrunning
        rw [hfound] at hrunning ⊢
        exact (headFound_parsed hurl haligned hrunning).aligned
      · rw [hmissing]
        exact headMissing_aligned haligned src
    · rw [if_neg hnone]
      apply inv_of_carries
      · exact hw.completed
      intro hrunning
      change p.1.status = _ at hrunning
      have hparsed : p.1.Parsed := by
        rcases hcases with hfail | ⟨src, hfound⟩ | ⟨src, hmissing⟩
        · rw [hfail] at hrunning
          cases hrunning
        · rw [hfound] at hrunning ⊢
          exact headFound_parsed hurl haligned hrunning
        · rw [hmissing, headMissing_content hcontent] at hnone
          exact absurd rfl hnone
      exact ⟨hnone, hparsed, hparsed.carries⟩
  · rw [if_neg hcontent]
    exact hw

theorem fill_inv (hw : w.Inv) (hrun : w.conn.status = .running)
    (hcontent : w.conn.m_content ≠ none) : (w.fill growth).Inv := by
  obtain ⟨hparsed, hcarries⟩ := hw.reading hrun hcontent
  have hcases := @fillBody_cases growth (w.conn, w.buffer)
  unfold fill
  generalize fillBody growth (w.conn, w.buffer) = p at hcases
  simp only at hcases ⊢
  -- what has been read of the body is in the packet
  have hfilled : p.1.status = .running ∨ p.1.m_residue = 0 →
      p.1.m_content ≠ none ∧ Carries w.parsed p.1 := by
    intro hgood
    rcases hcases with ⟨hfail, hresidue⟩ | ⟨src, hfound⟩ | hsame
    · rw [hfail] at hgood
      cases hgood with
      | inl hstatus => cases hstatus
      | inr hzero => exact absurd hzero hresidue
    · rw [hfound]
      exact ⟨hcontent, hcarries.bodyFound growth src⟩
    · rw [hsame]
      exact ⟨hcontent, hcarries⟩
  by_cases hdone : p.1.m_residue = 0
  · rw [if_pos hdone]
    have hfinished : p.1.finish = p.1.complete.zero := if_pos hdone
    apply inv_of_aligned
    · intro d hd
      cases List.mem_append.mp hd with
      | inl hold => exact hw.completed d hold
      | inr hnew =>
        rw [List.mem_singleton.mp hnew]
        exact ⟨hparsed, (hfilled (.inr hdone)).2, hdone⟩
    · intro _
      change p.1.finish.m_content = none ∧ p.1.finish.Aligned
      rw [hfinished]
      exact ⟨rfl, zero_aligned _⟩
  · rw [if_neg hdone]
    have hunfinished : p.1.finish = p.1 := if_neg hdone
    apply inv_of_carries
    · exact hw.completed
    intro hrunning
    change p.1.finish.status = _ at hrunning
    change p.1.finish.m_content ≠ none ∧ w.parsed.Parsed ∧ Carries w.parsed p.1.finish
    rw [hunfinished] at hrunning ⊢
    exact ⟨(hfilled (.inl hrunning)).1, hparsed, (hfilled (.inl hrunning)).2⟩

theorem turn_inv (hurl : ReportsUrl llhttp) (hw : w.Inv) (hrun : w.conn.status = .running) :
    (w.turn llhttp growth).Inv := by
  have hsearch := @search_inv llhttp growth w hurl hw hrun
  unfold turn
  simp only
  split
  · next hfound => exact fill_inv hsearch hfound.1 hfound.2
  · exact hsearch

theorem step_inv (hurl : ReportsUrl llhttp) (w : HttpWatch) (a : HttpAction) (t : HttpWatch)
    (hw : w.Inv) (hstep : w.step llhttp growth a = some t) : t.Inv := by
  rcases step_cases hstep with ⟨-, -, hloop, rfl⟩ | ⟨hturn, hsocket, ht⟩
  · have hrun := (of_decide_eq_true hloop).2
    exact turn_inv hurl hw hrun
  · obtain ⟨hcompleted, hparsed⟩ : t.completed = w.completed ∧ t.parsed = w.parsed := by
      rw [ht]
      exact ⟨rfl, rfl⟩
    cases conn_of_step hturn hsocket with
    | inl hsame =>
      refine ⟨?_, ?_, hcompleted ▸ hw.completed⟩
      · rw [hsame]
        exact hw.waiting
      · rw [hsame, hparsed]
        exact hw.reading
    | inr hzero =>
      apply inv_of_aligned (hcompleted ▸ hw.completed)
      rw [hzero]
      exact fun _ => ⟨rfl, zero_aligned _⟩

/-! ## 3. The runs -/

/-- Every call of `complete()` for a POST request finds its pointers valid exactly when the vector
had room for the body at the moment when the head had been parsed. -/
theorem views_valid_iff {capacity : Nat} {b : Buffer} {actions : List HttpAction}
    {d : CompletedRequest} (hurl : ReportsUrl llhttp)
    (hrun : run (step llhttp growth) (start (HttpConnect.create capacity) b) actions = some t)
    (hd : d ∈ t.completed) (hpost : d.conn.mParser.method = HTTP_POST) :
    d.conn.ViewsValid ↔ d.HasRoom := by
  have hinv : t.Inv := Reachable.invariant (step_inv hurl) ⟨actions, hrun⟩ (start_inv capacity b)
  have hwhole := hinv.completed d hd
  exact hwhole.carries.viewsValid_iff hwhole.parsed hwhole.residue hpost

/-- The vector has at least the capacity `m`, and had it at every head. -/
structure Reserves (m : Nat) (w : HttpWatch) : Prop where
  conn : m ≤ w.conn.m_readPacket.capacity
  parsed : m ≤ w.parsed.m_readPacket.capacity
  completed : ∀ d ∈ w.completed, m ≤ d.parsed.m_readPacket.capacity

theorem findHead_capacity (s : HttpConnect × Buffer) :
    s.1.m_readPacket.capacity ≤ (findHead llhttp growth s).1.m_readPacket.capacity := by
  rcases @findHead_cases llhttp growth s with hfail | ⟨src, hfound⟩ | ⟨src, hmissing⟩
  · rw [hfail]
    rfl
  · rw [hfound, headFound_packet]
    exact s.1.m_readPacket.le_append_capacity growth src
  · rw [hmissing]
    unfold headMissing
    simp only
    split <;> exact s.1.m_readPacket.le_append_capacity growth src

theorem fillBody_capacity (s : HttpConnect × Buffer) :
    s.1.m_readPacket.capacity ≤ (fillBody growth s).1.m_readPacket.capacity := by
  rcases @fillBody_cases growth s with ⟨hfail, -⟩ | ⟨src, hfound⟩ | hsame
  · rw [hfail]
    rfl
  · rw [hfound]
    exact s.1.m_readPacket.le_append_capacity growth src
  · rw [hsame]

theorem finish_capacity (c : HttpConnect) :
    c.finish.m_readPacket.capacity = c.m_readPacket.capacity := by
  unfold finish
  split <;> rfl

theorem search_reserves {m : Nat} (hw : w.Reserves m) : (w.search llhttp growth).Reserves m := by
  unfold search
  by_cases hcontent : w.conn.m_content = none
  · have hle := hw.conn.trans (@findHead_capacity llhttp growth (w.conn, w.buffer))
    rw [if_pos hcontent]
    simp only
    split
    · exact ⟨hle, hw.parsed, hw.completed⟩
    · exact ⟨hle, hle, hw.completed⟩
  · rw [if_neg hcontent]
    exact hw

theorem fill_reserves {m : Nat} (hw : w.Reserves m) : (w.fill growth).Reserves m := by
  have hle : m ≤ (fillBody growth (w.conn, w.buffer)).1.finish.m_readPacket.capacity := by
    rw [finish_capacity]
    exact hw.conn.trans (@fillBody_capacity growth (w.conn, w.buffer))
  unfold fill
  simp only
  split
  · refine ⟨hle, hw.parsed, ?_⟩
    intro d hd
    cases List.mem_append.mp hd with
    | inl hold => exact hw.completed d hold
    | inr hnew =>
      rw [List.mem_singleton.mp hnew]
      exact hw.parsed
  · exact ⟨hle, hw.parsed, hw.completed⟩

theorem step_reserves {m : Nat} (w : HttpWatch) (a : HttpAction) (t : HttpWatch)
    (hw : w.Reserves m) (hstep : w.step llhttp growth a = some t) : t.Reserves m := by
  rcases step_cases hstep with ⟨-, -, -, rfl⟩ | ⟨hturn, hsocket, ht⟩
  · have hsearch := @search_reserves llhttp growth w m hw
    unfold turn
    simp only
    split
    · exact fill_reserves hsearch
    · exact hsearch
  · rw [ht]
    refine ⟨?_, hw.parsed, hw.completed⟩
    change m ≤ t.conn.m_readPacket.capacity
    cases conn_of_step hturn hsocket with
    | inl hsame =>
      rw [hsame]
      exact hw.conn
    | inr hzero =>
      rw [hzero]
      exact hw.conn

/-- Requests that fit into the capacity of a new packet have valid views, whatever came before. -/
theorem hasRoom_of_le {capacity : Nat} {b : Buffer} {actions : List HttpAction}
    {d : CompletedRequest}
    (hrun : run (step llhttp growth) (start (HttpConnect.create capacity) b) actions = some t)
    (hd : d ∈ t.completed)
    (hle : d.parsed.m_readPacket.wpos + d.parsed.m_residue ≤ max ByteBuffer.DEFAULT_SIZE capacity) :
    d.HasRoom := by
  have hstart : (start (HttpConnect.create capacity) b).Reserves
      (max ByteBuffer.DEFAULT_SIZE capacity) :=
    ⟨le_refl _, le_refl _, fun _ h => absurd h List.not_mem_nil⟩
  have hreserves := Reachable.invariant step_reserves ⟨actions, hrun⟩ hstart
  exact hle.trans (Int.ofNat_le.mpr (hreserves.completed d hd))

/-- The heads of POST requests with bodies of 7 and of 4096 bytes, and the bodies. -/
def shortHead : List UInt8 := ascii "POST / HTTP/1.1\r\nContent-Length: 7\r\n\r\n"

def fullHead : List UInt8 := ascii "POST / HTTP/1.1\r\nContent-Length: 4096\r\n\r\n"

def shortBody : Read MESSAGE_BUFFER_SIZE := ⟨ascii "name=zs", by decide, by decide⟩

def fullBody : Read MESSAGE_BUFFER_SIZE where
  bytes := List.replicate 4096 97
  ne_nil := List.ne_nil_of_length_pos (List.length_replicate.symm ▸ Nat.succ_pos _)
  length_le := List.length_replicate.le

/-- A parser that accepts these two heads. -/
def twoHeads : Llhttp := fun url text =>
  if text = shortHead then ⟨true, HTTP_POST, 7, some 5, ⟨false, (0, 1), (0, 0)⟩⟩
  else if text = fullHead then ⟨true, HTTP_POST, 4096, some 5, ⟨false, (0, 1), (0, 0)⟩⟩
  else ⟨false, 0, 0, none, url⟩

def shortRead : Read MESSAGE_BUFFER_SIZE := ⟨shortHead, by decide, by decide⟩

def fullRead : Read MESSAGE_BUFFER_SIZE := ⟨fullHead, by decide, by decide⟩

def watched (actions : List HttpAction) : Option HttpWatch :=
  run (step twoHeads fun _ size => size)
    (start (HttpConnect.create 4096) (MessageBuffer.create MESSAGE_BUFFER_SIZE)) actions

theorem twoHeads_reportsUrl : ReportsUrl twoHeads := by
  intro url text hok hpost
  unfold twoHeads at hok ⊢
  split
  · simp
  · split
    · simp
    · next hshort hfull =>
      rw [if_neg hshort, if_neg hfull] at hok
      cases hok

theorem views_valid_iff_short :
    ∃ t, watched [.read shortRead, .turn, .leave, .read shortBody, .turn] = some t ∧
      ∃ d ∈ t.completed, d.parsed.m_residue = 7 ∧ d.conn.ViewsValid := by
  have heval : (watched [.read shortRead, .turn, .leave, .read shortBody, .turn]).any (fun t =>
      t.completed.any fun d => decide (d.conn.mParser.method = HTTP_POST ∧ d.HasRoom ∧
        d.parsed.m_residue = 7)) = true := by decide +kernel
  obtain ⟨t, ht, hany⟩ := (Option.any_eq_true _ _).mp heval
  obtain ⟨d, hd, hgood⟩ := List.any_eq_true.mp hany
  obtain ⟨hpost, hroom, hresidue⟩ := of_decide_eq_true hgood
  exact ⟨t, ht, d, hd, hresidue, (views_valid_iff twoHeads_reportsUrl ht hd hpost).mpr hroom⟩

/-- A body of 4096 bytes behind its head moves the vector away from the pointers. -/
theorem long_body_moves_vector :
    ∃ t, watched [.read fullRead, .turn, .leave, .read fullBody, .turn] = some t ∧
      ∃ d ∈ t.completed, d.conn.mParser.method = HTTP_POST ∧ ¬ d.conn.ViewsValid := by
  have heval : (watched [.read fullRead, .turn, .leave, .read fullBody, .turn]).any (fun t =>
      t.completed.any fun d => decide (d.conn.mParser.method = HTTP_POST ∧
        d.conn.m_content.map Pointer.block ≠ some d.conn.m_readPacket.block)) = true := by
    decide +kernel
  obtain ⟨t, ht, hany⟩ := (Option.any_eq_true _ _).mp heval
  obtain ⟨d, hd, hgood⟩ := List.any_eq_true.mp hany
  obtain ⟨hpost, hblock⟩ := of_decide_eq_true hgood
  refine ⟨t, ht, d, hd, hpost, ?_⟩
  intro hviews
  obtain ⟨m_content, -, hcontent, -, hvalid, -⟩ := hviews
  apply hblock
  rw [hcontent, Option.map_some, hvalid]

end HttpWatch

end LuaServer
