import LuaServer.Network.HttpBoundaries

/-!
# HttpLoop — which reads the loop ends on

A turn of the loop uses up bytes, answers a request or stops the connection, with two exceptions.
Behind a head whose `Content-Length` is negative as an `int` nothing is read and nothing completes,
and the loop goes round on the next byte: `contentLen()` has 64 bits, `m_residue` 32.  And in a read
that fills the buffer the search for a head, which takes the read for a C string, goes past the
buffer if there is no zero.
-/

open Reasoning

namespace LuaServer

namespace HttpConnect

/-! ## 1. What a read holds -/

/-- The search finds the end of the head that began with `w`.  The parser answers `r`, and `rest` is
behind the head. -/
def FindsHead (llhttp : Llhttp) (room : Bool) (url : HttpParserUrl) (w bs : List UInt8)
    (r : LlhttpResult) (rest : List UInt8) : Prop :=
  ¬ (room = false ∧ 0 ∉ bs) ∧ ∃ pos, find headEnd (bs.takeWhile (· ≠ 0)) = some pos ∧
    r = llhttp url (w ++ bs.take (pos + 4)) ∧ rest = bs.drop (pos + 4)

/-- With `w` of a head before them, the bytes hold a place where the loop goes wrong: no zero for the
search, or a head accepted by the parser with a negative length and at least one byte behind it; or
a complete request, and such a place further on. -/
inductive Astray (llhttp : Llhttp) (room : Bool) :
    HttpParserUrl → List UInt8 → List UInt8 → Prop
  | blind {url : HttpParserUrl} {w bs : List UInt8} :
      room = false → 0 ∉ bs → bs ≠ [] → Astray llhttp room url w bs
  | negative {url : HttpParserUrl} {w bs rest : List UInt8} {r : LlhttpResult} :
      FindsHead llhttp room url w bs r rest → r.ok = true → awaited r < 0 → rest ≠ [] →
      Astray llhttp room url w bs
  | next {url : HttpParserUrl} {w bs rest : List UInt8} {r : LlhttpResult} :
      FindsHead llhttp room url w bs r rest → r.ok = true → 0 ≤ awaited r →
      (awaited r).toNat ≤ rest.length →
      Astray llhttp room r.url [] (rest.drop (awaited r).toNat) → Astray llhttp room url w bs

/-- The same where `n` bytes of a body are waited for. -/
def AstrayBehind (llhttp : Llhttp) (room : Bool) (url : HttpParserUrl) (n : Int)
    (bs : List UInt8) : Prop :=
  n < 0 ∧ bs ≠ [] ∨ 0 ≤ n ∧ n.toNat ≤ bs.length ∧ Astray llhttp room url [] (bs.drop n.toNat)

/-- The same for a connection between two turns. -/
def AstrayFrom (llhttp : Llhttp) (room : Bool) (c : HttpConnect) (bs : List UInt8) : Prop :=
  c.status = .running ∧
    if c.m_content = none then Astray llhttp room c.mParser.m_url c.headSoFar bs
    else AstrayBehind llhttp room c.mParser.m_url c.m_residue bs

variable {llhttp : Llhttp} {growth : Nat → Nat → Nat} {room : Bool} {c : HttpConnect}
  {url : HttpParserUrl} {w bs rest : List UInt8} {r : LlhttpResult}

theorem FindsHead.unique {r' : LlhttpResult} {rest' : List UInt8}
    (h : FindsHead llhttp room url w bs r rest) (h' : FindsHead llhttp room url w bs r' rest') :
    r = r' ∧ rest = rest' := by
  obtain ⟨-, pos, hpos, rfl, rfl⟩ := h
  obtain ⟨-, pos', hpos', rfl, rfl⟩ := h'
  obtain rfl := Option.some.inj (hpos.symm.trans hpos')
  exact ⟨rfl, rfl⟩

theorem FindsHead.length_lt (h : FindsHead llhttp room url w bs r rest) :
    rest.length < bs.length := by
  obtain ⟨-, pos, hpos, -, rfl⟩ := h
  have hle := find_le hpos
  have htake : (bs.takeWhile (· ≠ 0)).length ≤ bs.length := (List.takeWhile_prefix _).length_le
  have hfour : headEnd.length = 4 := rfl
  rw [List.length_drop]
  omega

theorem astray_iff : Astray llhttp room url w bs ↔ room = false ∧ 0 ∉ bs ∧ bs ≠ [] ∨
    ∃ r rest, FindsHead llhttp room url w bs r rest ∧ r.ok = true ∧
      AstrayBehind llhttp room r.url (awaited r) rest := by
  constructor
  · intro h
    cases h with
    | blind hroom hzero hbs => exact .inl ⟨hroom, hzero, hbs⟩
    | negative hfinds hok hneg hrest => exact .inr ⟨_, _, hfinds, hok, .inl ⟨hneg, hrest⟩⟩
    | next hfinds hok hpos hle hastray =>
      exact .inr ⟨_, _, hfinds, hok, .inr ⟨hpos, hle, hastray⟩⟩
  · rintro (⟨hroom, hzero, hbs⟩ | ⟨r, rest, hfinds, hok, hbehind⟩)
    · exact .blind hroom hzero hbs
    · cases hbehind with
      | inl h => exact .negative hfinds hok h.1 h.2
      | inr h => exact .next hfinds hok h.1 h.2.1 h.2.2

/-- Behind the head that is found, it depends on the parser and on the rest. -/
theorem FindsHead.astray_iff (h : FindsHead llhttp room url w bs r rest) :
    Astray llhttp room url w bs ↔
      r.ok = true ∧ AstrayBehind llhttp room r.url (awaited r) rest := by
  rw [HttpConnect.astray_iff]
  constructor
  · rintro (⟨hroom, hzero, -⟩ | ⟨r', rest', hfinds, hastray⟩)
    · exact absurd ⟨hroom, hzero⟩ h.1
    · obtain ⟨rfl, rfl⟩ := h.unique hfinds
      exact hastray
  · intro hastray
    exact .inr ⟨r, rest, h, hastray⟩

theorem not_astray_of_unfound (hsees : bs ≠ [] → ¬ (room = false ∧ 0 ∉ bs))
    (hnone : find headEnd (bs.takeWhile (· ≠ 0)) = none) : ¬ Astray llhttp room url w bs := by
  rw [HttpConnect.astray_iff]
  rintro (⟨hroom, hzero, hbs⟩ | ⟨r, rest, ⟨-, pos, hpos, -⟩, -⟩)
  · exact hsees hbs ⟨hroom, hzero⟩
  · rw [hnone] at hpos
    cases hpos

theorem not_astrayFrom_nil : ¬ AstrayFrom llhttp room c [] := by
  have hnil : ∀ url w, ¬ Astray llhttp room url w [] := fun url w =>
    not_astray_of_unfound (fun h => absurd rfl h) (by decide)
  intro h
  have hastray := h.2
  by_cases hcontent : c.m_content = none
  · rw [if_pos hcontent] at hastray
    exact hnil _ _ hastray
  · rw [if_neg hcontent] at hastray
    cases hastray with
    | inl h => exact h.2 rfl
    | inr h => exact hnil _ _ (List.drop_nil ▸ h.2.2)

/-! ## 2. One turn -/

theorem takeBody_negative (h : c.m_residue < 0) : c.takeBody growth bs = (c, bs) := by
  have hpos : ¬ 0 < c.m_residue := by omega
  have hzero : ¬ c.m_residue = 0 := by omega
  rw [takeBody, if_neg hpos, finish, if_neg hzero]

/-- The read ends inside the body. -/
theorem takeBody_inside (h : (bs.length : Int) < c.m_residue) :
    c.takeBody growth bs = (c.bodyFound growth bs, []) := by
  have hpos : 0 < c.m_residue := by omega
  have hn : min c.m_residue.toNat bs.length = bs.length := by omega
  have hresidue : ¬ (c.bodyFound growth bs).m_residue = 0 := by
    change ¬ c.m_residue - bs.length = 0
    omega
  simp only [takeBody, if_pos hpos, hn, List.take_length, List.drop_length, finish, if_neg hresidue]

variable (growth) in
/-- The body is complete. -/
theorem takeBody_complete (h : 0 ≤ c.m_residue) (hle : c.m_residue.toNat ≤ bs.length) :
    ∃ d : HttpConnect, d.status = c.status ∧ d.mParser = c.mParser ∧ d.reactions = c.reactions ∧
      c.takeBody growth bs = (d.complete.zero, bs.drop c.m_residue.toNat) := by
  by_cases hpos : 0 < c.m_residue
  · have hn : min c.m_residue.toNat bs.length = c.m_residue.toNat := by omega
    have hresidue : (c.bodyFound growth (bs.take c.m_residue.toNat)).m_residue = 0 := by
      change c.m_residue - ((bs.take c.m_residue.toNat).length : Int) = 0
      rw [List.length_take]
      omega
    refine ⟨c.bodyFound growth (bs.take c.m_residue.toNat), rfl, rfl, rfl, ?_⟩
    simp only [takeBody, if_pos hpos, hn, finish, if_pos hresidue]
  · have hzero : c.m_residue = 0 := by omega
    refine ⟨c, rfl, rfl, rfl, ?_⟩
    rw [takeBody, if_neg hpos, finish, if_pos hzero, hzero]
    rfl

/-- A connection that runs is between two requests exactly when it waits for no bytes of a body. -/
def Settled (c : HttpConnect) : Prop :=
  c.status = .running → (c.m_content = none ↔ c.m_residue = 0)

/-- The turn from here changes nothing. -/
structure Stuck (t : HttpConnect × List UInt8) : Prop where
  running : t.1.status = .running
  content : t.1.m_content ≠ none
  residue : t.1.m_residue < 0
  rest : t.2 ≠ []

theorem Stuck.turn_eq {t : HttpConnect × List UInt8} (h : Stuck t) :
    readerTurn llhttp growth room t.1 t.2 = t :=
  (turn_body h.running h.content).trans (takeBody_negative h.residue)

theorem Stuck.not_halts {t : HttpConnect × List UInt8} (h : Stuck t) :
    ¬ Halts readerCond (fun s => readerTurn llhttp growth room s.1 s.2) t := by
  apply not_halts_of_invariant (fun s => s = t) ?_ rfl
  intro s hs
  subst hs
  exact ⟨decide_eq_true ⟨h.rest, h.running⟩, h.turn_eq⟩

theorem Stuck.astrayFrom {t : HttpConnect × List UInt8} (h : Stuck t) :
    AstrayFrom llhttp room t.1 t.2 := by
  rw [AstrayFrom, if_neg h.content]
  exact ⟨h.running, .inl ⟨h.residue, h.rest⟩⟩

/-- What a turn makes of the bytes behind a head. -/
inductive BodySpec (llhttp : Llhttp) (room : Bool) (h : HttpConnect) (bs : List UInt8)
    (t : HttpConnect × List UInt8) : Prop
  | empties : ¬ AstrayBehind llhttp room h.mParser.m_url h.m_residue bs → t.1.Settled →
      t.1.status = .running → t.2 = [] → BodySpec llhttp room h bs t
  | completes : (AstrayBehind llhttp room h.mParser.m_url h.m_residue bs ↔
        AstrayFrom llhttp room t.1 t.2) → t.1.Settled → t.1.status = .running →
      t.2.length = bs.length - h.m_residue.toNat → 0 ≤ h.m_residue →
      h.m_residue.toNat ≤ bs.length → BodySpec llhttp room h bs t
  | sticks : Stuck t → t = (h, bs) → BodySpec llhttp room h bs t

theorem takeBody_spec (hrun : c.status = .running) (hcontent : c.m_content ≠ none) :
    BodySpec llhttp room c bs (c.takeBody growth bs) := by
  rcases lt_or_ge c.m_residue 0 with hneg | hpos
  · rw [takeBody_negative hneg]
    by_cases hbs : bs = []
    · apply BodySpec.empties ?_ ?_ hrun hbs
      · intro hastray
        cases hastray with
        | inl h => exact h.2 hbs
        | inr h => exact absurd h.1 (by omega)
      · intro _
        exact iff_of_false hcontent hneg.ne
    · exact .sticks ⟨hrun, hcontent, hneg, hbs⟩ rfl
  rcases lt_or_ge (bs.length : Int) c.m_residue with hlt | hge
  · rw [takeBody_inside hlt]
    apply BodySpec.empties ?_ ?_ hrun rfl
    · intro hastray
      cases hastray with
      | inl h => exact absurd h.1 (by omega)
      | inr h => exact absurd h.2.1 (by omega)
    · intro _
      apply iff_of_false hcontent
      change ¬ c.m_residue - bs.length = 0
      omega
  · have hle : c.m_residue.toNat ≤ bs.length := by omega
    obtain ⟨d, hstatus, hparser, -, hturn⟩ := takeBody_complete growth hpos hle
    rw [hturn]
    apply BodySpec.completes ?_ ?_ (hstatus.trans hrun) List.length_drop hpos hle
    · have hnone : d.complete.zero.m_content = none := rfl
      have hpacket : d.complete.zero.headSoFar = [] := by
        change (resize _ 0).take 0 = []
        exact List.take_zero
      have hzero : d.complete.zero.mParser.m_url = c.mParser.m_url := by
        rw [← hparser]
        rfl
      have hbehind : AstrayBehind llhttp room c.mParser.m_url c.m_residue bs ↔
          Astray llhttp room c.mParser.m_url [] (bs.drop c.m_residue.toNat) := by
        constructor
        · intro hastray
          cases hastray with
          | inl h => exact absurd h.1 (by omega)
          | inr h => exact h.2.2
        · intro hastray
          exact .inr ⟨hpos, by omega, hastray⟩
      rw [hbehind, AstrayFrom, if_pos hnone, hpacket, hzero]
      exact (and_iff_right (hstatus.trans hrun)).symm
    · intro _
      exact iff_of_true rfl rfl

theorem ne_undefined_of_running (h : c.status = .running) : c.status ≠ .undefined := by
  rw [h]
  decide

theorem ne_undefined_of_closed (h : c.status = .closed) : c.status ≠ .undefined := by
  rw [h]
  decide

theorem ne_running_of_closed (h : c.status = .closed) : c.status ≠ .running := by
  rw [h]
  decide

/-- What a turn of a running connection makes of its bytes. -/
inductive TurnSpec (llhttp : Llhttp) (room : Bool) (c : HttpConnect) (bs : List UInt8)
    (t : HttpConnect × List UInt8) : Prop
  | stops : ¬ AstrayFrom llhttp room c bs → t.1.status = .closed → t.2.length ≤ bs.length →
      TurnSpec llhttp room c bs t
  | fails : AstrayFrom llhttp room c bs → t = (c.fail, bs) → TurnSpec llhttp room c bs t
  | empties : ¬ AstrayFrom llhttp room c bs → t.1.Settled → t.1.status ≠ .undefined → t.2 = [] →
      TurnSpec llhttp room c bs t
  | completes : (AstrayFrom llhttp room c bs ↔ AstrayFrom llhttp room t.1 t.2) → t.1.Settled →
      t.1.status = .running → t.2.length < bs.length → TurnSpec llhttp room c bs t
  | sticks : AstrayFrom llhttp room c bs → Stuck t → t = (c, bs) ∨ t.2.length < bs.length →
      TurnSpec llhttp room c bs t

theorem headMissing_status (src : List UInt8) :
    (c.headMissing growth src).status = c.status ∨
      (c.headMissing growth src).status = .closed := by
  unfold headMissing
  simp only
  split
  · exact .inr rfl
  · exact .inl rfl

theorem headMissing_settled {src : List UInt8} (hc : c.m_content = none) (hres : c.m_residue = 0) :
    (c.headMissing growth src).Settled := by
  intro _
  apply iff_of_true (headMissing_content hc src)
  unfold headMissing
  simp only
  split <;> exact hres

/-- A turn that looks for the end of a head. -/
theorem search_spec (hrun : c.status = .running) (hcontent : c.m_content = none)
    (hres : c.m_residue = 0) (hbs : bs ≠ []) :
    TurnSpec llhttp room c bs (readerTurn llhttp growth room c bs) := by
  have hastray : AstrayFrom llhttp room c bs ↔ Astray llhttp room c.mParser.m_url c.headSoFar bs := by
    rw [AstrayFrom, if_pos hcontent, and_iff_right hrun]
  by_cases hblind : room = false ∧ 0 ∉ bs
  · -- the C string of the read goes past the buffer
    rw [turn_blind hcontent hblind]
    exact .fails (hastray.mpr (.blind hblind.1 hblind.2 hbs)) rfl
  cases hfind : find headEnd (bs.takeWhile (· ≠ 0)) with
  | none =>
    rw [turn_unfound hcontent hblind hfind]
    have hdefined : (c.headMissing growth bs).status ≠ .undefined := by
      have hstatus : (c.headMissing growth bs).status = c.status ∨
          (c.headMissing growth bs).status = .closed := headMissing_status bs
      rcases hstatus with hstatus | hstatus
      · exact ne_undefined_of_running (hstatus.trans hrun)
      · exact ne_undefined_of_closed hstatus
    exact .empties (hastray.not.mpr (not_astray_of_unfound (fun _ => hblind) hfind))
      (headMissing_settled hcontent hres) hdefined rfl
  | some pos =>
    obtain ⟨r, hr⟩ : ∃ r, r = llhttp c.mParser.m_url (c.headSoFar ++ bs.take (pos + 4)) := ⟨_, rfl⟩
    have hfinds : FindsHead llhttp room c.mParser.m_url c.headSoFar bs r (bs.drop (pos + 4)) :=
      ⟨hblind, pos, hfind, hr, rfl⟩
    have hlt := hfinds.length_lt
    rw [turn_parse hcontent hblind hfind]
    cases hok : r.ok with
    | false =>
      -- `close()` is called for a head that the parser refuses
      have hstatus : (c.headFound llhttp growth (bs.take (pos + 4))).status = .closed :=
        (headFound_closes (hr ▸ hok)).1
      rw [if_neg fun h => ne_running_of_closed hstatus h.1]
      apply TurnSpec.stops ?_ hstatus hlt.le
      rw [hastray, hfinds.astray_iff, hok]
      simp
    | true =>
      -- the same turn goes on with the bytes behind the head
      have haccepted : Accepted c (c.headFound llhttp growth (bs.take (pos + 4))) r :=
        headFound_accepted hres hr hok
      have hrun' := haccepted.status.trans hrun
      rw [if_pos ⟨hrun', haccepted.content⟩]
      have hbehind : AstrayFrom llhttp room c bs ↔ AstrayBehind llhttp room
          (c.headFound llhttp growth (bs.take (pos + 4))).mParser.m_url
          (c.headFound llhttp growth (bs.take (pos + 4))).m_residue (bs.drop (pos + 4)) := by
        rw [hastray, hfinds.astray_iff, and_iff_right hok, haccepted.url, haccepted.residue]
      have hbody : BodySpec llhttp room (c.headFound llhttp growth (bs.take (pos + 4)))
          (bs.drop (pos + 4)) ((c.headFound llhttp growth (bs.take (pos + 4))).takeBody growth
            (bs.drop (pos + 4))) :=
        takeBody_spec hrun' haccepted.content
      cases hbody with
      | empties hno hsettled hrunning hnil =>
        exact .empties (hbehind.not.mpr hno) hsettled (ne_undefined_of_running hrunning) hnil
      | completes hiff hsettled hrunning hlen _ _ =>
        exact .completes (hbehind.trans hiff) hsettled hrunning (by omega)
      | sticks hstuck heq =>
        apply TurnSpec.sticks ?_ hstuck (.inr ?_)
        · rw [hbehind]
          rw [heq] at hstuck
          exact .inl ⟨hstuck.residue, hstuck.rest⟩
        · rw [heq]
          exact hlt

theorem turn_spec (hrun : c.status = .running) (hsettled : c.Settled) (hbs : bs ≠ []) :
    TurnSpec llhttp room c bs (readerTurn llhttp growth room c bs) := by
  by_cases hcontent : c.m_content = none
  · exact search_spec hrun hcontent ((hsettled hrun).mp hcontent) hbs
  have hresidue : c.m_residue ≠ 0 := (hsettled hrun).not.mp hcontent
  have hastray : AstrayFrom llhttp room c bs ↔
      AstrayBehind llhttp room c.mParser.m_url c.m_residue bs := by
    rw [AstrayFrom, if_neg hcontent, and_iff_right hrun]
  rw [turn_body hrun hcontent]
  cases takeBody_spec hrun hcontent with
  | empties hno hsettled hrunning hnil =>
    exact .empties (hastray.not.mpr hno) hsettled (ne_undefined_of_running hrunning) hnil
  | completes hiff hsettled hrunning hlen hpos hle =>
    -- at least one byte was missing
    exact .completes (hastray.trans hiff) hsettled hrunning (by omega)
  | sticks hstuck heq =>
    apply TurnSpec.sticks ?_ hstuck (.inl heq)
    rw [heq] at hstuck
    exact hstuck.astrayFrom

/-- Behind an accepted head with a negative length the connection is stuck. -/
theorem FindsHead.stuck (h : FindsHead llhttp room c.mParser.m_url c.headSoFar bs r rest)
    (hrun : c.status = .running) (hcontent : c.m_content = none) (hres : c.m_residue = 0)
    (hok : r.ok = true) (hneg : awaited r < 0) (hrest : rest ≠ []) :
    Stuck (readerTurn llhttp growth room c bs) := by
  obtain ⟨hsees, pos, hpos, hr, rfl⟩ := h
  have haccepted : Accepted c (c.headFound llhttp growth (bs.take (pos + 4))) r :=
    headFound_accepted hres hr hok
  have hneg' : (c.headFound llhttp growth (bs.take (pos + 4))).m_residue < 0 := by
    rw [haccepted.residue]
    exact hneg
  have hrun' := haccepted.status.trans hrun
  rw [turn_parse hcontent hsees hpos, if_pos ⟨hrun', haccepted.content⟩, takeBody_negative hneg']
  exact ⟨hrun', haccepted.content, hneg', hrest⟩

/-! ## 3. All turns of a read -/

variable (llhttp growth room) in
/-- The turn uses up a byte, answers a request or leaves the loop. -/
def Moves (s : HttpConnect × List UInt8) : Prop :=
  (readerTurn llhttp growth room s.1 s.2).2.length < s.2.length ∨
    s.1.reactions.length < (readerTurn llhttp growth room s.1 s.2).1.reactions.length ∨
    (readerTurn llhttp growth room s.1 s.2).1.status = .closed

/-- The bytes that are left, and one more while the connection runs. -/
def turnMeasure (s : HttpConnect × List UInt8) : Nat :=
  s.2.length + if s.1.status = .running then 1 else 0

/-- The code has kept to its memory. -/
def Defined (s : HttpConnect × List UInt8) : Prop := s.1.status ≠ .undefined

theorem readerCond_iff {s : HttpConnect × List UInt8} :
    readerCond s = true ↔ s.2 ≠ [] ∧ s.1.status = .running := decide_eq_true_iff

theorem readerCond_of_not_defined (s : HttpConnect × List UInt8) (h : ¬ Defined s) :
    readerCond s = false := by
  apply decide_eq_false
  rintro ⟨-, hrun⟩
  exact h (ne_undefined_of_running hrun)

theorem not_moves {s : HttpConnect × List UInt8}
    (hrest : (readerTurn llhttp growth room s.1 s.2).2 = s.2)
    (hreactions : (readerTurn llhttp growth room s.1 s.2).1.reactions = s.1.reactions)
    (hstatus : (readerTurn llhttp growth room s.1 s.2).1.status ≠ .closed) :
    ¬ Moves llhttp growth room s := by
  rintro (h | h | h)
  · exact absurd (hrest ▸ h) (Nat.lt_irrefl _)
  · exact absurd (hreactions ▸ h) (Nat.lt_irrefl _)
  · exact hstatus h

/-- A turn keeps the invariant; it moves, or it changes nothing, or it fails. -/
theorem turn_moves {s : HttpConnect × List UInt8} (hs : s.1.Settled) (hcond : readerCond s = true) :
    (readerTurn llhttp growth room s.1 s.2).1.Settled ∧
      (Moves llhttp growth room s ∧ Defined (readerTurn llhttp growth room s.1 s.2) ∧
          turnMeasure (readerTurn llhttp growth room s.1 s.2) < turnMeasure s ∨
        ¬ Moves llhttp growth room s ∧
          (readerTurn llhttp growth room s.1 s.2 = s ∨
            readerTurn llhttp growth room s.1 s.2 = (s.1.fail, s.2))) := by
  obtain ⟨hbs, hrun⟩ := readerCond_iff.mp hcond
  have hpos := List.length_pos_of_ne_nil hbs
  have hmeasure : turnMeasure s = s.2.length + 1 := by rw [turnMeasure, if_pos hrun]
  have hshort : (readerTurn llhttp growth room s.1 s.2).2.length < s.2.length →
      Defined (readerTurn llhttp growth room s.1 s.2) → Moves llhttp growth room s ∧
        Defined (readerTurn llhttp growth room s.1 s.2) ∧
        turnMeasure (readerTurn llhttp growth room s.1 s.2) < turnMeasure s := by
    intro hlt hdefined
    refine ⟨.inl hlt, hdefined, ?_⟩
    rw [hmeasure, turnMeasure]
    split <;> omega
  have hspec : TurnSpec llhttp room s.1 s.2 (readerTurn llhttp growth room s.1 s.2) :=
    turn_spec hrun hs hbs
  cases hspec with
  | stops _ hclosed hle =>
    have hstopped := ne_running_of_closed hclosed
    refine ⟨fun hrun' => absurd hrun' hstopped,
      .inl ⟨.inr (.inr hclosed), ne_undefined_of_closed hclosed, ?_⟩⟩
    rw [hmeasure, turnMeasure, if_neg hstopped]
    omega
  | fails _ heq =>
    have hundefined : (readerTurn llhttp growth room s.1 s.2).1.status = .undefined := by
      rw [heq]
      rfl
    refine ⟨fun hrun' => ?_, .inr ⟨?_, .inr heq⟩⟩
    · rw [hundefined] at hrun'
      cases hrun'
    · apply not_moves
      · rw [heq]
      · rw [heq]
        rfl
      · rw [hundefined]
        decide
  | empties _ hsettled hdefined hnil =>
    refine ⟨hsettled, .inl (hshort ?_ hdefined)⟩
    rw [hnil]
    exact hpos
  | completes _ hsettled hrun' hlt =>
    exact ⟨hsettled, .inl (hshort hlt (ne_undefined_of_running hrun'))⟩
  | sticks _ hstuck hsame =>
    refine ⟨fun _ => iff_of_false hstuck.content hstuck.residue.ne, ?_⟩
    cases hsame with
    | inr hlt => exact .inl (hshort hlt (ne_undefined_of_running hstuck.running))
    | inl heq =>
      have heq' : readerTurn llhttp growth room s.1 s.2 = s := heq
      refine .inr ⟨?_, .inl heq'⟩
      apply not_moves
      · rw [heq']
      · rw [heq']
      · rw [heq', hrun]
        decide

theorem ends_iff_all_move (hs : c.Settled) (hdefined : c.status ≠ .undefined) :
    (∃ t, Returns readerCond (fun s => readerTurn llhttp growth room s.1 s.2) (c, bs) t ∧
        Defined t) ↔
      ∀ q, Turns readerCond (fun s => readerTurn llhttp growth room s.1 s.2) (c, bs) q →
        readerCond q = true → Moves llhttp growth room q := by
  have hkeeps : ∀ s : HttpConnect × List UInt8, s.1.Settled → readerCond s = true →
      (readerTurn llhttp growth room s.1 s.2).1.Settled ∧
        (turnMeasure (readerTurn llhttp growth room s.1 s.2) < turnMeasure s ∨
          readerTurn llhttp growth room s.1 s.2 = s) := by
    intro s hsettled hcond
    obtain ⟨hsettled', hmoves⟩ := @turn_moves llhttp growth room s hsettled hcond
    refine ⟨hsettled', ?_⟩
    rcases hmoves with ⟨-, -, hlt⟩ | ⟨-, heq | heq⟩
    · exact .inl hlt
    · exact .inr heq
    · -- the connection has stopped running
      apply Or.inl
      have hstopped : ¬ s.1.fail.status = .running := by
        change ¬ HttpStatus.undefined = .running
        decide
      rw [heq, turnMeasure, turnMeasure, if_neg hstopped, if_pos (readerCond_iff.mp hcond).2]
      exact Nat.lt_succ_self _
  have hstart : Defined (c, bs) := hdefined
  rw [returns_in_iff readerCond_of_not_defined hstart,
    halts_iff_moves (fun s : HttpConnect × List UInt8 => s.1.Settled) turnMeasure hkeeps hs]
  have hsettled : ∀ q, Turns readerCond (fun s => readerTurn llhttp growth room s.1 s.2) (c, bs) q →
      q.1.Settled := fun q hq =>
    hq.invariant (I := fun s : HttpConnect × List UInt8 => s.1.Settled)
      (fun s hs hcond => (hkeeps s hs hcond).1) hs
  constructor
  · rintro ⟨hchanges, hdefines⟩ q hq hcond
    rcases (turn_moves (hsettled q hq) hcond).2 with ⟨hmoves, -⟩ | ⟨-, heq | heq⟩
    · exact hmoves
    · exact absurd heq (hchanges q hq hcond)
    · have hd := hdefines q hq hcond
      rw [heq] at hd
      exact absurd rfl hd
  · intro hall
    constructor
    · intro q hq hcond heq
      rcases (turn_moves (hsettled q hq) hcond).2 with ⟨-, -, hlt⟩ | ⟨hno, -⟩
      · rw [heq] at hlt
        exact Nat.lt_irrefl _ hlt
      · exact hno (hall q hq hcond)
    · intro q hq hcond
      rcases (turn_moves (hsettled q hq) hcond).2 with ⟨-, hd, -⟩ | ⟨hno, -⟩
      · exact hd
      · exact absurd (hall q hq hcond) hno

/-- The loop ends on a read, and in the memory of the code, exactly when the read does not lead it
astray. -/
theorem ends_iff_not_astray (hs : c.Settled) (hdefined : c.status ≠ .undefined) :
    (∃ t, Returns readerCond (fun s => readerTurn llhttp growth room s.1 s.2) (c, bs) t ∧
        Defined t) ↔ ¬ AstrayFrom llhttp room c bs := by
  -- on the length of what is left: only a turn that completes a request leaves the question open
  induction hn : bs.length using Nat.strongRecOn generalizing c bs with
  | ind n ih =>
    subst hn
    cases hcond : readerCond (c, bs) with
    | false =>
      apply iff_of_true ⟨_, returns_of_exit hcond, hdefined⟩
      intro hastray
      have hnil : bs = [] := by
        by_contra hbs
        rw [readerCond_iff.mpr ⟨hbs, hastray.1⟩] at hcond
        cases hcond
      exact not_astrayFrom_nil (hnil ▸ hastray)
    | true =>
      obtain ⟨hbs, hrun⟩ := readerCond_iff.mp hcond
      have hturn : (∃ t, Returns readerCond (fun s => readerTurn llhttp growth room s.1 s.2) (c, bs)
            t ∧ Defined t) ↔
          ∃ t, Returns readerCond (fun s => readerTurn llhttp growth room s.1 s.2)
            (readerTurn llhttp growth room c bs) t ∧ Defined t :=
        exists_congr fun t => and_congr_left fun _ => returns_turn_iff hcond
      rw [hturn]
      have hspec : TurnSpec llhttp room c bs (readerTurn llhttp growth room c bs) :=
        turn_spec hrun hs hbs
      cases hspec with
      | stops hno hclosed _ =>
        refine iff_of_true ⟨_, returns_of_exit ?_, ne_undefined_of_closed hclosed⟩ hno
        apply decide_eq_false
        rintro ⟨-, hrun'⟩
        exact ne_running_of_closed hclosed hrun'
      | fails hastray heq =>
        apply iff_of_false ?_ (not_not.mpr hastray)
        rintro ⟨t, ht, hd⟩
        have hexit := readerCond_of_not_defined (c.fail, bs) fun h => h rfl
        rw [heq, returns_exit_iff hexit] at ht
        subst ht
        exact hd rfl
      | empties hno _ hd hnil =>
        refine iff_of_true ⟨_, returns_of_exit ?_, hd⟩ hno
        exact decide_eq_false fun h => h.1 hnil
      | completes hiff hsettled hrun' hlt =>
        exact (ih _ hlt hsettled (ne_undefined_of_running hrun') rfl).trans (not_congr hiff.symm)
      | sticks hastray hstuck _ =>
        apply iff_of_false ?_ (not_not.mpr hastray)
        rintro ⟨t, ht, -⟩
        exact hstuck.not_halts ⟨t, ht⟩

/-! ## 4. Reads of a connection -/

theorem create_settled (capacity : Nat) : (create capacity).Settled := fun _ => iff_of_true rfl rfl

theorem ReadsTo.settled {d : HttpConnect} (h : ReadsTo llhttp growth room c bs d)
    (hs : c.Settled) : d.Settled := by
  obtain ⟨rest, hreturns⟩ := h
  exact hreturns.invariant (I := fun s : HttpConnect × List UInt8 => s.1.Settled)
    (fun s hs hcond => (turn_moves hs hcond).1) hs

theorem CleanReads.settled {reads : List (Read MESSAGE_BUFFER_SIZE)} {d : HttpConnect}
    (h : CleanReads llhttp growth c reads d) (hs : c.Settled) : d.Settled := by
  induction reads generalizing c with
  | nil =>
    obtain rfl : d = c := h
    exact hs
  | cons r reads ih =>
    obtain ⟨e, he, hd⟩ := cleanReads_cons_iff.mp h
    exact ih hd (he.settled hs)

variable (llhttp growth) in
/-- The turn on the buffer uses up a byte, answers a request or leaves the loop. -/
def Progresses (s : HttpConnect × Buffer) : Prop :=
  (onMsgbufferBody llhttp growth s).2.getActiveSize < s.2.getActiveSize ∨
    s.1.reactions.length < (onMsgbufferBody llhttp growth s).1.reactions.length ∨
    (onMsgbufferBody llhttp growth s).1.status = .closed

theorem CleanAt.progresses_iff {r : Read MESSAGE_BUFFER_SIZE} {b : Buffer} (h : CleanAt r b) :
    Progresses llhttp growth (c, b) ↔ Moves llhttp growth (leavesRoom r.bytes) (c, b.active) := by
  obtain ⟨hclean, hturn⟩ := h.body llhttp growth c
  rw [Progresses, Moves, hturn, ← h.inBounds.active_length, ← hclean.inBounds.active_length]

/-- Whatever reads a connection has had, on the next read the loop ends without leaving the memory
of the code, and each of its turns uses up a byte, answers a request or leaves the loop by `close()`,
exactly when the read does not lead it astray. -/
theorem readLoop_ends_iff {capacity : Nat} {reads : List (Read MESSAGE_BUFFER_SIZE)}
    (hc : CleanReads llhttp growth (create capacity) reads c) (hdefined : c.status ≠ .undefined)
    (r : Read MESSAGE_BUFFER_SIZE) :
    ((∃ fuel t, echoRead (onMsgbuffer llhttp growth) fuel
          (TcpSocketBase.fresh MESSAGE_BUFFER_SIZE c) r = some t ∧
            t.derived.status ≠ .undefined) ↔
        ¬ AstrayFrom llhttp (leavesRoom r.bytes) c r.bytes) ∧
      ((∀ q, Turns loopCond (onMsgbufferBody llhttp growth)
          (c, (MessageBuffer.create MESSAGE_BUFFER_SIZE).receive r) q → loopCond q = true →
            Progresses llhttp growth q) ↔
        ¬ AstrayFrom llhttp (leavesRoom r.bytes) c r.bytes) := by
  have hs : c.Settled := hc.settled (create_settled capacity)
  have hactive : ((MessageBuffer.create MESSAGE_BUFFER_SIZE).receive r).active = r.bytes :=
    (MessageBuffer.create MESSAGE_BUFFER_SIZE).receive_active r
  rw [← @ends_iff_not_astray llhttp growth _ _ _ hs hdefined]
  constructor
  · constructor
    · intro hends
      obtain ⟨fuel, t, ht, hd⟩ := hends
      obtain ⟨rest, hreturns⟩ := (echoRead_clean_iff c t.derived r).mp ⟨fuel, t, ht, rfl⟩
      exact ⟨_, hreturns, hd⟩
    · intro hends
      obtain ⟨⟨d, rest⟩, hreturns, hd⟩ := hends
      obtain ⟨fuel, t, ht, rfl⟩ := (echoRead_clean_iff c d r).mpr ⟨rest, hreturns⟩
      exact ⟨fuel, t, ht, hd⟩
  · rw [ends_iff_all_move hs hdefined]
    have hmap : ∀ u, Turns readerCond
          (fun s => readerTurn llhttp growth (leavesRoom r.bytes) s.1 s.2) (c, r.bytes) u ↔
        ∃ t, Turns loopCond (onMsgbufferBody llhttp growth)
          (c, (MessageBuffer.create MESSAGE_BUFFER_SIZE).receive r) t ∧ (t.1, t.2.active) = u := by
      intro u
      have hstart : (c, r.bytes) =
          (c, ((MessageBuffer.create MESSAGE_BUFFER_SIZE).receive r).active) := by rw [hactive]
      rw [hstart]
      exact turns_map (s := (c, (MessageBuffer.create MESSAGE_BUFFER_SIZE).receive r))
        (fun s : HttpConnect × Buffer => (s.1, s.2.active)) (fun s => CleanAt r s.2)
        (fun _ hs => hs.cond) (fun s hs _ => hs.body llhttp growth s.1) (cleanAt_receive r) u
    have hclean : ∀ q, Turns loopCond (onMsgbufferBody llhttp growth)
        (c, (MessageBuffer.create MESSAGE_BUFFER_SIZE).receive r) q → CleanAt r q.2 := by
      intro q hq
      exact hq.invariant (I := fun s : HttpConnect × Buffer => CleanAt r s.2)
        (fun s hs _ => (hs.body llhttp growth s.1).1) (cleanAt_receive r)
    constructor
    · intro hall u hu hcond
      obtain ⟨q, hq, rfl⟩ := (hmap u).mp hu
      rw [(hclean q hq).cond] at hcond
      exact (hclean q hq).progresses_iff.mp (hall q hq hcond)
    · intro hall q hq hcond
      apply (hclean q hq).progresses_iff.mpr
      apply hall _ ((hmap _).mpr ⟨q, hq, rfl⟩)
      rw [(hclean q hq).cond]
      exact hcond

/-- The head of a POST request that announces `2 ^ 31` bytes. -/
def hugeHead : List UInt8 := ascii "POST / HTTP/1.1\r\nContent-Length: 2147483648\r\n\r\n"

def hugeParsed : LlhttpResult := ⟨true, HTTP_POST, 2147483648, some 5, ⟨false, (0, 1), (0, 0)⟩⟩

/-- A parser that accepts this head only. -/
def hugeLength : Llhttp := fun url text =>
  if text = hugeHead then hugeParsed else ⟨false, 0, 0, none, url⟩

/-- The head without the first byte of its body. -/
theorem readLoop_ends_iff_head :
    ∃ fuel t, echoRead (onMsgbuffer hugeLength ReadPacket.tightGrowth) fuel
      (TcpSocketBase.fresh MESSAGE_BUFFER_SIZE (create 0)) ⟨hugeHead, by decide, by decide⟩ =
        some t ∧ t.derived.status ≠ .undefined := by
  have hdefined : (create 0).status ≠ .undefined := by decide
  refine (@readLoop_ends_iff hugeLength ReadPacket.tightGrowth (create 0) 0 [] rfl hdefined
    _).1.mpr ?_
  have hfinds : FindsHead hugeLength true (create 0).mParser.m_url [] hugeHead hugeParsed [] :=
    ⟨by decide, 43, by decide +kernel, by decide +kernel, by decide +kernel⟩
  intro hastray
  obtain ⟨-, hbehind⟩ := hfinds.astray_iff.mp hastray.2
  cases hbehind with
  | inl h => exact h.2 rfl
  | inr h => exact absurd h.1 (by decide +kernel)

/-- The loop does not come back from a read with the head and one more byte. -/
theorem negative_body_hangs :
    ¬ ∃ fuel t, echoRead (onMsgbuffer hugeLength ReadPacket.tightGrowth) fuel
      (TcpSocketBase.fresh MESSAGE_BUFFER_SIZE (create 0))
      ⟨hugeHead ++ [97], by decide, by decide⟩ = some t := by
  intro hends
  obtain ⟨fuel, t, ht⟩ := hends
  obtain ⟨rest, hreturns⟩ := (echoRead_clean_iff (create 0) t.derived _).mp ⟨fuel, t, ht, rfl⟩
  have hfinds : FindsHead hugeLength true (create 0).mParser.m_url (create 0).headSoFar
      (hugeHead ++ [97]) hugeParsed [97] :=
    ⟨by decide, 43, by decide +kernel, by decide +kernel, by decide +kernel⟩
  have hstuck : Stuck (readerTurn hugeLength ReadPacket.tightGrowth true (create 0)
      (hugeHead ++ [97])) :=
    hfinds.stuck rfl rfl rfl rfl (by decide +kernel) (List.cons_ne_nil _ _)
  have hcond : readerCond (create 0, hugeHead ++ [97]) = true := by decide +kernel
  exact hstuck.not_halts ⟨_, (returns_turn_iff hcond).mp hreturns⟩

end HttpConnect

end LuaServer
