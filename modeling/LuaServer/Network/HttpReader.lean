import LuaServer.Network.HttpConnect

/-!
# HttpReader — the reader of requests on the received bytes

`readerTurn` is the turn of the loop without the buffer: it has the received bytes, and of what lies
behind them it knows only whether there is a NUL.  `onMsgbufferBody_agree` says when the loop on the
buffer does the same: when the search on the storage ends like the search on the received bytes.
-/

open Reasoning

namespace LuaServer

namespace HttpConnect

variable (llhttp : Llhttp) (growth : Nat → Nat → Nat)

/-- `findHead` on the received bytes; with `room` there is a NUL behind them. -/
def searchIn (room : Bool) (c : HttpConnect) (bs : List UInt8) : HttpConnect × List UInt8 :=
  if room = false ∧ 0 ∉ bs then (c.fail, bs)
  else
    match find headEnd (bs.takeWhile (· ≠ 0)) with
    | some rpos => (c.headFound llhttp growth (bs.take (rpos + 4)), bs.drop (rpos + 4))
    | none => (c.headMissing growth bs, [])

def takeBody (c : HttpConnect) (bs : List UInt8) : HttpConnect × List UInt8 :=
  if 0 < c.m_residue then
    let n := min c.m_residue.toNat bs.length
    ((c.bodyFound growth (bs.take n)).finish, bs.drop n)
  else (c.finish, bs)

def readerTurn (room : Bool) (c : HttpConnect) (bs : List UInt8) : HttpConnect × List UInt8 :=
  let s := if c.m_content = none then c.searchIn llhttp growth room bs else (c, bs)
  if s.1.status = .running ∧ s.1.m_content ≠ none then takeBody growth s.1 s.2 else s

/-- The search on the storage ends like the search on the received bytes. -/
def SeesOnly (room : Bool) (b : Buffer) : Prop :=
  (cString b.getReadPointer).map (find headEnd) =
    if room = false ∧ 0 ∉ b.active then none
    else some (find headEnd (b.active.takeWhile (· ≠ 0)))

variable {llhttp growth} {room : Bool} {c : HttpConnect} {b : Buffer}

/-- The two functions give the same connection, and `k` bytes are read. -/
def Agree (s : HttpConnect × Buffer) (t : HttpConnect × List UInt8) (b : Buffer) : Prop :=
  ∃ k ≤ b.active.length, s = (t.1, b.readCompleted k) ∧ t.2 = b.active.drop k

theorem findHead_agree (hb : b.InBounds) (hsees : SeesOnly room b) :
    Agree (findHead llhttp growth (c, b)) (c.searchIn llhttp growth room b.active) b := by
  unfold SeesOnly at hsees
  unfold findHead searchIn
  -- `SeesOnly` compares the search on the storage with the one on the received bytes
  cases hview : cString b.getReadPointer with
  | none =>
    have hroom : room = false ∧ 0 ∉ b.active := by
      by_contra hroom
      rw [hview, if_neg hroom] at hsees
      cases hsees
    simp only [if_pos hroom, hview]
    exact ⟨0, Nat.zero_le _, rfl, rfl⟩
  | some view =>
    have hroom : ¬ (room = false ∧ 0 ∉ b.active) := by
      intro hroom
      rw [hview, if_pos hroom] at hsees
      cases hsees
    rw [hview, if_neg hroom] at hsees
    have hfind : find headEnd view = find headEnd (b.active.takeWhile (· ≠ 0)) :=
      Option.some.inj hsees
    simp only [if_neg hroom, hview, hfind]
    cases hpos : find headEnd (b.active.takeWhile (· ≠ 0)) with
    | none =>
      have hall := hb.readBytes_eq (le_refl b.active.length)
      rw [List.take_length, hb.active_length] at hall
      simp only [hall]
      refine ⟨b.active.length, le_refl _, ?_, by rw [List.drop_length]⟩
      rw [hb.active_length]
    | some rpos =>
      -- the end that is found lies in the received bytes
      have hle : rpos + 4 ≤ b.active.length := by
        have h := find_le hpos
        have htake : (b.active.takeWhile (· ≠ 0)).length ≤ b.active.length :=
          (List.takeWhile_prefix _).length_le
        have hfour : headEnd.length = 4 := rfl
        omega
      refine ⟨rpos + 4, hle, ?_, rfl⟩
      simp only [b.getReadPointer_take (hb.active_length ▸ hle)]

/-- The `int` of the code is the smaller one of the two lengths. -/
theorem bodyLength_eq (hb : b.InBounds) (hres : 0 < c.m_residue) :
    toSizeT (if toInt32 b.getActiveSize < c.m_residue then toInt32 b.getActiveSize
      else c.m_residue) = min c.m_residue.toNat b.active.length := by
  have hlen := hb.active_length
  have hlt : b.getActiveSize < 2 ^ 31 := by
    have hw := hb.wpos_le
    have hsize : MESSAGE_BUFFER_SIZE.toNat = 4096 := rfl
    rw [hb.getActiveSize_eq]
    omega
  rw [toInt32_of_lt hlt]
  unfold toSizeT
  split <;> omega

theorem readBody_agree (hb : b.InBounds) :
    Agree (readBody growth (c, b)) (c.takeBody growth b.active) b := by
  unfold readBody takeBody
  by_cases hres : 0 < c.m_residue
  · have hread := hb.readBytes_eq (Nat.min_le_right c.m_residue.toNat b.active.length)
    simp only [if_pos hres, bodyLength_eq hb hres, hread]
    exact ⟨_, Nat.min_le_right _ _, rfl, rfl⟩
  · simp only [if_neg hres]
    exact ⟨0, Nat.zero_le _, rfl, rfl⟩

/-- A turn of the loop is a turn on the received bytes. -/
theorem onMsgbufferBody_agree (hb : b.InBounds) (hsees : c.m_content = none → SeesOnly room b) :
    Agree (onMsgbufferBody llhttp growth (c, b)) (readerTurn llhttp growth room c b.active) b := by
  -- the search, if there is one
  have hfirst : Agree (if c.m_content = none then findHead llhttp growth (c, b) else (c, b))
      (if c.m_content = none then c.searchIn llhttp growth room b.active else (c, b.active)) b := by
    by_cases hnone : c.m_content = none
    · simp only [if_pos hnone]
      exact findHead_agree hb (hsees hnone)
    · simp only [if_neg hnone]
      exact ⟨0, Nat.zero_le _, rfl, rfl⟩
  unfold onMsgbufferBody readerTurn
  simp only
  generalize (if c.m_content = none then findHead llhttp growth (c, b) else (c, b)) = s at hfirst ⊢
  generalize (if c.m_content = none then c.searchIn llhttp growth room b.active
    else (c, b.active)) = t at hfirst ⊢
  obtain ⟨k, hk, rfl, ht⟩ := hfirst
  obtain ⟨c', bs⟩ := t
  simp only at ht ⊢
  subst ht
  split
  · -- the body is read from what the search has left
    have hagree : Agree (readBody growth (c', b.readCompleted k))
        (c'.takeBody growth (b.readCompleted k).active) (b.readCompleted k) :=
      readBody_agree (hb.readCompleted hk)
    rw [hb.readCompleted_active hk] at hagree
    obtain ⟨j, hj, hbody, hrest⟩ := hagree
    rw [hb.readCompleted_active hk] at hj hrest
    rw [hbody]
    rw [List.length_drop] at hj
    refine ⟨k + j, by omega, ?_, by rw [hrest, List.drop_drop]⟩
    show (_, _) = (_, _)
    congr 1
    show ({ b with rpos := b.rpos + k + j } : Buffer) = { b with rpos := b.rpos + (k + j) }
    rw [Nat.add_assoc]
  · exact ⟨k, hk, rfl, rfl⟩

/-! ## 2. One turn -/

/-- The part of a head that the packet holds. -/
def headSoFar (c : HttpConnect) : List UInt8 := c.m_readPacket.storage.take c.m_readPacket.wpos

/-- The number of bytes that the connection waits for behind a head. -/
def awaited (r : LlhttpResult) : Int :=
  if r.method = HTTP_POST then toInt32 r.content_length.toNat else 0

variable (c growth) in
theorem append_headSoFar (src : List UInt8) :
    (c.append growth src).headSoFar = c.headSoFar ++ src :=
  c.m_readPacket.toByteBuffer.append_take_wpos src

theorem headFound_closes {src : List UInt8}
    (hok : (llhttp c.mParser.m_url (c.headSoFar ++ src)).ok = false) :
    (c.headFound llhttp growth src).status = .closed ∧
      (c.headFound llhttp growth src).reactions = c.reactions ++ [.close] := by
  rw [← append_headSoFar growth c] at hok
  have hfound : c.headFound llhttp growth src =
      ((c.append growth src).parseHead llhttp).2.headParsed false := by
    rw [← hok]
    rfl
  rw [hfound]
  exact ⟨rfl, rfl⟩

theorem headFound_content (c : HttpConnect) (src : List UInt8) :
    (c.headFound llhttp growth src).m_content ≠ none := by
  unfold headFound headParsed
  simp only
  split
  · exact Option.some_ne_none _
  · split <;> exact Option.some_ne_none _

theorem headFound_packet (c : HttpConnect) (src : List UInt8) :
    (c.headFound llhttp growth src).m_readPacket = c.m_readPacket.append growth src := by
  unfold headFound headParsed
  simp only
  split
  · rfl
  · split <;> rfl

/-- A head that the parser has accepted. -/
structure Accepted (c h : HttpConnect) (r : LlhttpResult) : Prop where
  status : h.status = c.status
  reactions : h.reactions = c.reactions
  content : h.m_content ≠ none
  method : h.mParser.method = r.method
  url : h.mParser.m_url = r.url
  residue : h.m_residue = awaited r

theorem headFound_accepted {src : List UInt8} {r : LlhttpResult} (hres : c.m_residue = 0)
    (hr : r = llhttp c.mParser.m_url (c.headSoFar ++ src)) (hok : r.ok = true) :
    Accepted c (c.headFound llhttp growth src) r := by
  rw [← append_headSoFar growth c] at hr
  subst hr
  have hfound : c.headFound llhttp growth src =
      ((c.append growth src).parseHead llhttp).2.headParsed true := by
    rw [← hok]
    rfl
  rw [hfound, headParsed, if_neg (by decide : ¬ true = false)]
  split
  · next hpost => exact ⟨rfl, rfl, Option.some_ne_none _, rfl, rfl, (if_pos hpost).symm⟩
  · next hpost => exact ⟨rfl, rfl, Option.some_ne_none _, rfl, rfl, hres.trans (if_neg hpost).symm⟩

section
variable {bs : List UInt8}

theorem turn_blind (hc : c.m_content = none) (hblind : room = false ∧ 0 ∉ bs) :
    readerTurn llhttp growth room c bs = (c.fail, bs) := by
  have hsearch : c.searchIn llhttp growth room bs = (c.fail, bs) := if_pos hblind
  unfold readerTurn
  simp only [if_pos hc, hsearch]
  rw [if_neg]
  rintro ⟨hrunning, -⟩
  cases (show HttpStatus.undefined = .running from hrunning)

theorem headMissing_content (hc : c.m_content = none) (src : List UInt8) :
    (c.headMissing growth src).m_content = none := by
  unfold headMissing
  simp only
  split <;> exact hc

theorem turn_unfound (hc : c.m_content = none) (hsees : ¬ (room = false ∧ 0 ∉ bs))
    (hfind : find headEnd (bs.takeWhile (· ≠ 0)) = none) :
    readerTurn llhttp growth room c bs = (c.headMissing growth bs, []) := by
  have hsearch : c.searchIn llhttp growth room bs = (c.headMissing growth bs, []) := by
    unfold searchIn
    rw [if_neg hsees, hfind]
  unfold readerTurn
  simp only [if_pos hc, hsearch]
  rw [if_neg]
  rintro ⟨-, hcontent⟩
  exact hcontent (headMissing_content hc bs)

theorem turn_parse (hc : c.m_content = none) (hsees : ¬ (room = false ∧ 0 ∉ bs)) {pos : Nat}
    (hfind : find headEnd (bs.takeWhile (· ≠ 0)) = some pos) :
    readerTurn llhttp growth room c bs =
      if (c.headFound llhttp growth (bs.take (pos + 4))).status = .running ∧
          (c.headFound llhttp growth (bs.take (pos + 4))).m_content ≠ none then
        (c.headFound llhttp growth (bs.take (pos + 4))).takeBody growth (bs.drop (pos + 4))
      else (c.headFound llhttp growth (bs.take (pos + 4)), bs.drop (pos + 4)) := by
  have hsearch : c.searchIn llhttp growth room bs =
      (c.headFound llhttp growth (bs.take (pos + 4)), bs.drop (pos + 4)) := by
    unfold searchIn
    rw [if_neg hsees, hfind]
  unfold readerTurn
  simp only [if_pos hc, hsearch]

theorem turn_body (hrun : c.status = .running) (hc : c.m_content ≠ none) :
    readerTurn llhttp growth room c bs = c.takeBody growth bs := by
  unfold readerTurn
  simp only [if_neg hc]
  exact if_pos ⟨hrun, hc⟩

end

/-! ## 3. Reads into a clean buffer -/

def readerCond (s : HttpConnect × List UInt8) : Bool := decide (s.2 ≠ [] ∧ s.1.status = .running)

/-- The reader goes from `c` to `d` on the bytes of one read. -/
def ReadsTo (llhttp : Llhttp) (growth : Nat → Nat → Nat) (room : Bool) (c : HttpConnect)
    (bs : List UInt8) (d : HttpConnect) : Prop :=
  ∃ rest, Returns readerCond (fun s => readerTurn llhttp growth room s.1 s.2) (c, bs) (d, rest)

theorem readsTo_nil_iff {c d : HttpConnect} : ReadsTo llhttp growth room c [] d ↔ d = c := by
  have hexit : readerCond (c, []) = false := by simp [readerCond]
  simp only [ReadsTo, returns_exit_iff hexit, Prod.mk.injEq]
  constructor
  · rintro ⟨-, h, -⟩
    exact h
  · rintro rfl
    exact ⟨[], rfl, rfl⟩

theorem readsTo_turn_iff {c d : HttpConnect} {bs : List UInt8} (hbs : bs ≠ [])
    (hrun : c.status = .running) :
    ReadsTo llhttp growth room c bs d ↔
      ReadsTo llhttp growth room (readerTurn llhttp growth room c bs).1
        (readerTurn llhttp growth room c bs).2 d := by
  have hcond : readerCond (c, bs) = true := decide_eq_true ⟨hbs, hrun⟩
  simp only [ReadsTo, returns_turn_iff hcond]

/-- There is a NUL behind a read unless it fills the buffer. -/
def leavesRoom (bs : List UInt8) : Bool := decide (bs.length < MESSAGE_BUFFER_SIZE.toNat)

theorem seesOnly_clean {bs : List UInt8} (hb : b.InBounds) (hwpos : b.wpos = bs.length)
    (hstorage : b.storage =
      bs ++ List.replicate (MESSAGE_BUFFER_SIZE.toNat - bs.length) 0) :
    SeesOnly (leavesRoom bs) b := by
  have hr := hb.rpos_le
  have hw := hb.wpos_le
  have hpointer : b.getReadPointer =
      bs.drop b.rpos ++ List.replicate (MESSAGE_BUFFER_SIZE.toNat - bs.length) 0 := by
    rw [MessageBuffer.getReadPointer, hstorage, List.drop_append_of_le_length (by omega)]
  have hactive : b.active = bs.drop b.rpos := by
    rw [MessageBuffer.active, hpointer, hb.getActiveSize_eq]
    exact List.take_left' (by rw [List.length_drop]; omega)
  have hroom : (leavesRoom bs = false ∧ 0 ∉ bs.drop b.rpos) ↔
      (MESSAGE_BUFFER_SIZE.toNat - bs.length = 0 ∧ 0 ∉ bs.drop b.rpos) := by
    rw [leavesRoom, decide_eq_false_iff_not, Nat.sub_eq_zero_iff_le, not_lt]
  rw [SeesOnly, hpointer, hactive, cString_zeros]
  simp only [hroom]
  split <;> rfl

/-- A loop head of a read into a clean buffer: the loop has moved the read cursor only. -/
structure CleanAt (r : Read MESSAGE_BUFFER_SIZE) (b : Buffer) : Prop where
  inBounds : b.InBounds
  wpos : b.wpos = r.bytes.length
  storage : b.storage =
    r.bytes ++ List.replicate (MESSAGE_BUFFER_SIZE.toNat - r.bytes.length) 0

theorem cleanAt_receive (r : Read MESSAGE_BUFFER_SIZE) :
    CleanAt r ((MessageBuffer.create MESSAGE_BUFFER_SIZE).receive r) where
  inBounds := (MessageBuffer.create MESSAGE_BUFFER_SIZE).receive_inBounds r
  wpos := Nat.zero_add _
  storage := (MessageBuffer.create_receive r).1

theorem CleanAt.cond {r : Read MESSAGE_BUFFER_SIZE} (h : CleanAt r b) :
    readerCond (c, b.active) = loopCond (c, b) := by
  have hlen := h.inBounds.active_length
  simp only [readerCond, loopCond, ← hlen, List.length_pos_iff]

variable (llhttp growth c) in
theorem CleanAt.body {r : Read MESSAGE_BUFFER_SIZE} (h : CleanAt r b) :
    CleanAt r (onMsgbufferBody llhttp growth (c, b)).2 ∧
      readerTurn llhttp growth (leavesRoom r.bytes) c b.active =
        ((onMsgbufferBody llhttp growth (c, b)).1,
          (onMsgbufferBody llhttp growth (c, b)).2.active) := by
  have hagree : Agree (onMsgbufferBody llhttp growth (c, b))
      (readerTurn llhttp growth (leavesRoom r.bytes) c b.active) b :=
    onMsgbufferBody_agree h.inBounds fun _ => seesOnly_clean h.inBounds h.wpos h.storage
  obtain ⟨k, hk, hs, hrest⟩ := hagree
  rw [hs]
  refine ⟨⟨h.inBounds.readCompleted hk, h.wpos, h.storage⟩, ?_⟩
  simp only [h.inBounds.readCompleted_active hk, ← hrest]

/-- A read into a clean buffer is the reader on the received bytes. -/
theorem echoRead_clean_iff (c d : HttpConnect) (r : Read MESSAGE_BUFFER_SIZE) :
    (∃ fuel t, echoRead (onMsgbuffer llhttp growth) fuel
        (TcpSocketBase.fresh MESSAGE_BUFFER_SIZE c) r = some t ∧ t.derived = d) ↔
      ReadsTo llhttp growth (leavesRoom r.bytes) c r.bytes d := by
  let b₀ := (MessageBuffer.create MESSAGE_BUFFER_SIZE).receive r
  have hactive₀ : b₀.active = r.bytes := (MessageBuffer.create MESSAGE_BUFFER_SIZE).receive_active r
  have hmap : ∀ u, Returns readerCond
        (fun s => readerTurn llhttp growth (leavesRoom r.bytes) s.1 s.2) (c, r.bytes) u ↔
      ∃ t, Returns loopCond (onMsgbufferBody llhttp growth) (c, b₀) t ∧ (t.1, t.2.active) = u := by
    intro u
    have hstart : (c, r.bytes) = (c, b₀.active) := by rw [hactive₀]
    rw [hstart]
    exact returns_map (s := (c, b₀)) (fun s : HttpConnect × Buffer => (s.1, s.2.active))
      (fun s => CleanAt r s.2) (fun _ hs => hs.cond) (fun s hs _ => hs.body llhttp growth s.1)
      (cleanAt_receive r) u
  constructor
  · rintro ⟨fuel, t, hf, rfl⟩
    obtain ⟨⟨d, b⟩, hloop, rfl⟩ := Option.map_eq_some_iff.mp hf
    exact ⟨b.active, (hmap _).mpr ⟨(d, b), ⟨fuel, hloop⟩, rfl⟩⟩
  · rintro ⟨rest, hreturns⟩
    obtain ⟨⟨d', b⟩, ⟨fuel, hloop⟩, heq⟩ := (hmap _).mp hreturns
    obtain rfl : d' = d := congrArg Prod.fst heq
    exact ⟨fuel, _, Option.map_eq_some_iff.mpr ⟨_, hloop, rfl⟩, rfl⟩

end HttpConnect

end LuaServer
