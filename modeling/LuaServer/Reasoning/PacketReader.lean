import LuaServer.Reasoning.Resumable

/-!
# PacketReader — packets with a head that announces the length of the body

A packet is filled in two phases: its head, then as many bytes as the head announces.  A finished
packet is dispatched and the next one is begun.  A packet whose body is empty is not dispatched by
the turn that fills its head but by the turn after it, which needs input to take place; a packet
that needs nothing and is not complete is turned for ever.
-/

namespace Reasoning

/-- The packet operations of a reader: `P` is the packet under construction, `ε` what is reported
about finished packets. -/
structure PacketReader (P ε α : Type*) where
  create : P
  headFull : P → Bool
  readHead : P → List α → P × List α
  needsize : P → Int
  append : P → List α → P
  complete : P → Bool
  dispatch : P → List ε

namespace PacketReader

variable {P ε α : Type*}

/-- One turn on the packet under construction, if there is one, and the report so far. -/
def turn (R : PacketReader P ε α) (s : Option P × List ε) (bs : List α) :
    (Option P × List ε) × List α :=
  let p := s.1.getD R.create
  if R.headFull p then
    let k := min (R.needsize p).toNat bs.length
    let p' := R.append p (bs.take k)
    if R.complete p' then ((none, s.2 ++ R.dispatch p'), bs.drop k)
    else ((some p', s.2), bs.drop k)
  else
    ((some (R.readHead p bs).1, s.2), (R.readHead p bs).2)

/-- What the operations must satisfy for the reader not to see how its input is cut. -/
structure Lawful (R : PacketReader P ε α) : Prop where
  head_frame : ∀ p a b, R.headFull p = false → a ≠ [] → (R.readHead p a).2 ≠ [] →
    R.readHead p (a ++ b) = ((R.readHead p a).1, (R.readHead p a).2 ++ b)
  head_resume : ∀ p a b, R.headFull p = false → a ≠ [] → b ≠ [] → (R.readHead p a).2 = [] →
    R.readHead p (a ++ b) = ((R.readHead p a).1, b) ∨
      R.headFull (R.readHead p a).1 = false ∧
        R.readHead p (a ++ b) = R.readHead (R.readHead p a).1 b
  append_nil : ∀ p, R.append p [] = p
  append_append : ∀ p a b, R.append (R.append p a) b = R.append p (a ++ b)
  headFull_append : ∀ p a, R.headFull p = true → R.headFull (R.append p a) = true
  needsize_append : ∀ p a, R.headFull p = true → (a.length : Int) ≤ R.needsize p →
    R.needsize (R.append p a) = R.needsize p - a.length
  complete_eq_false : ∀ p, R.headFull p = true → 0 < R.needsize p → R.complete p = false

variable {R : PacketReader P ε α}

/-! ## 1. One turn -/

theorem turn_head {s : Option P × List ε} {p : P} (hp : s.1.getD R.create = p)
    (h : R.headFull p = false) (bs : List α) :
    R.turn s bs = ((some (R.readHead p bs).1, s.2), (R.readHead p bs).2) := by
  simp only [turn, hp, h, Bool.false_eq_true, if_false]

theorem turn_body {s : Option P × List ε} {p : P} (hp : s.1.getD R.create = p)
    (h : R.headFull p = true) (bs : List α) {k : Nat}
    (hk : min (R.needsize p).toNat bs.length = k) :
    R.turn s bs =
      if R.complete (R.append p (bs.take k)) then
        ((none, s.2 ++ R.dispatch (R.append p (bs.take k))), bs.drop k)
      else ((some (R.append p (bs.take k)), s.2), bs.drop k) := by
  simp only [turn, hp, h, if_true, hk]

theorem turn_body_rest {s : Option P × List ε} {p : P} (hp : s.1.getD R.create = p)
    (h : R.headFull p = true) (bs : List α) {k : Nat}
    (hk : min (R.needsize p).toNat bs.length = k) : (R.turn s bs).2 = bs.drop k := by
  rw [turn_body hp h bs hk]
  split <;> rfl

theorem Lawful.resumable (hR : R.Lawful) : Resumable R.turn := by
  constructor
  · intro s a b ha hleft
    obtain ⟨p, hp⟩ : ∃ p, s.1.getD R.create = p := ⟨_, rfl⟩
    cases hh : R.headFull p with
    | false =>
      rw [turn_head hp hh] at hleft ⊢
      rw [turn_head hp hh, hR.head_frame p a b hh ha hleft]
    | true =>
      -- what is left over shows that the body does not reach the end of `a`
      have hlt : (R.needsize p).toNat < a.length := by
        by_contra hge
        rw [turn_body_rest hp hh a (k := a.length) (by omega), List.drop_length] at hleft
        exact hleft rfl
      rw [turn_body hp hh a (k := (R.needsize p).toNat) (by omega),
        turn_body hp hh (a ++ b) (k := (R.needsize p).toNat) (by rw [List.length_append]; omega),
        List.take_append_of_le_length (Nat.le_of_lt hlt),
        List.drop_append_of_le_length (Nat.le_of_lt hlt)]
      split <;> rfl
  · intro s a b ha hb hleft
    obtain ⟨p, hp⟩ : ∃ p, s.1.getD R.create = p := ⟨_, rfl⟩
    cases hh : R.headFull p with
    | false =>
      rw [turn_head hp hh] at hleft ⊢
      rw [turn_head hp hh]
      rcases hR.head_resume p a b hh ha hb hleft with he | ⟨hh', he⟩
      · exact .inl (by rw [he])
      · exact .inr (by rw [he, turn_head (p := (R.readHead p a).1) rfl hh'])
    | true =>
      have hge : a.length ≤ (R.needsize p).toNat := by
        by_contra hlt
        rw [turn_body_rest hp hh a (k := (R.needsize p).toNat) (by omega)] at hleft
        have := List.drop_eq_nil_iff.mp hleft
        omega
      have hpos : 0 < a.length := List.length_pos_iff.mpr ha
      rw [turn_body hp hh a (k := a.length) (by omega), List.take_length]
      by_cases heq : (R.needsize p).toNat = a.length
      · -- the body ends with `a`
        rw [turn_body hp hh (a ++ b) (k := a.length) (by rw [List.length_append]; omega),
          List.take_left, List.drop_left]
        apply Or.inl
        split <;> rfl
      · -- the body goes on in `b`
        have hneed := hR.needsize_append p a hh (by omega)
        have hh' := hR.headFull_append p a hh
        have hcomp : R.complete (R.append p a) = false :=
          hR.complete_eq_false _ hh' (by omega)
        rw [turn_body hp hh (a ++ b)
          (k := a.length + min (R.needsize (R.append p a)).toNat b.length)
          (by rw [List.length_append, hneed]; omega),
          List.take_length_add_append, List.drop_length_add_append, ← hR.append_append, hcomp]
        apply Or.inr
        simp only [Bool.false_eq_true, if_false]
        rw [turn_body (p := R.append p a) rfl hh' b rfl]

theorem turn_report (s : Option P × List ε) (bs : List α) : s.2 <+: (R.turn s bs).1.2 := by
  cases hh : R.headFull (s.1.getD R.create) with
  | false =>
    have hturn := turn_head (show s.1.getD R.create = _ from rfl) hh bs
    exact hturn ▸ List.prefix_rfl
  | true =>
    rw [turn_body rfl hh bs rfl]
    split
    · exact List.prefix_append _ _
    · exact List.prefix_rfl

theorem feeds_report {s t : Option P × List ε} {bs : List α} (h : Feeds R.turn s bs t) :
    s.2 <+: t.2 :=
  h.invariant (I := fun u => s.2 <+: u.2) (fun u cs _ hu => hu.trans (turn_report u cs))
    List.prefix_rfl

/-- No turn on some input is lost: a new packet has no head yet, a head takes some of the input, and
every finished packet is reported. -/
structure Advances (R : PacketReader P ε α) : Prop where
  create_headFull : R.headFull R.create = false
  readHead_lt : ∀ p bs, R.headFull p = false → bs ≠ [] → (R.readHead p bs).2.length < bs.length
  dispatch_ne_nil : ∀ p, R.dispatch p ≠ []

/-- A turn on some input uses some of it up, or delivers the packet under construction, or changes
nothing. -/
theorem Lawful.turn_cases (hR : R.Lawful) (hadv : R.Advances) (s : Option P × List ε) {bs : List α}
    (hbs : bs ≠ []) :
    (R.turn s bs).2.length < bs.length ∨
      (∃ p, s.1 = some p ∧ R.turn s bs = ((none, s.2 ++ R.dispatch p), bs)) ∨
      R.turn s bs = (s, bs) := by
  obtain ⟨p, hp⟩ : ∃ p : P, s.1.getD R.create = p := ⟨_, rfl⟩
  have hpos := List.length_pos_iff.mpr hbs
  cases hh : R.headFull p with
  | false =>
    apply Or.inl
    rw [turn_head hp hh]
    exact hadv.readHead_lt p bs hh hbs
  | true =>
    obtain ⟨k, hk⟩ : ∃ k, min (R.needsize p).toNat bs.length = k := ⟨_, rfl⟩
    by_cases hzero : k = 0
    · -- the packet needs nothing, so there is one
      subst hzero
      have hsome : s.1 = some p := by
        cases hs : s.1 with
        | none =>
          rw [hs] at hp
          rw [← hp] at hh
          cases hadv.create_headFull.symm.trans hh
        | some q => rw [← hp, hs]; rfl
      have hturn := turn_body hp hh bs hk
      rw [List.take_zero, List.drop_zero, hR.append_nil] at hturn
      apply Or.inr
      by_cases hc : R.complete p = true
      · exact .inl ⟨p, hsome, by rw [hturn, if_pos hc]⟩
      · exact .inr (by rw [hturn, if_neg hc, ← hsome])
    · apply Or.inl
      rw [turn_body_rest hp hh bs hk, List.length_drop]
      omega

/-! ## 2. The body of a packet -/

section
variable {p : P} {tr : List ε} {t : Option P × List ε} {bs body rest : List α}

/-- A packet that needs nothing is dispatched as soon as there is input. -/
theorem Lawful.feeds_ready_iff (hR : R.Lawful) (hh : R.headFull p = true) (hn : R.needsize p ≤ 0)
    (hc : R.complete p = true) (hbs : bs ≠ []) :
    Feeds R.turn (some p, tr) bs t ↔ Feeds R.turn (none, tr ++ R.dispatch p) bs t := by
  rw [feeds_turn_iff hbs, turn_body (p := p) rfl hh bs (k := 0) (by omega), List.take_zero,
    List.drop_zero, hR.append_nil, if_pos hc]

theorem feeds_body_iff (hh : R.headFull p = true) (hbody : body ≠ [])
    (hn : R.needsize p = body.length) (hc : R.complete (R.append p body) = true) :
    Feeds R.turn (some p, tr) (body ++ rest) t ↔
      Feeds R.turn (none, tr ++ R.dispatch (R.append p body)) rest t := by
  rw [feeds_turn_iff (by simp [hbody]), turn_body (p := p) rfl hh (body ++ rest)
    (k := body.length) (by rw [hn, List.length_append]; omega), List.take_left, List.drop_left,
    if_pos hc]

theorem Lawful.feeds_unfinished (hR : R.Lawful) (hh : R.headFull p = true)
    (hn : (body.length : Int) < R.needsize p) :
    Feeds R.turn (some p, tr) body (some (R.append p body), tr) := by
  by_cases hbody : body = []
  · subst hbody
    rw [hR.append_nil]
    exact feeds_nil_iff.mpr rfl
  · have hneed := hR.needsize_append p body hh (by omega)
    have hc := hR.complete_eq_false _ (hR.headFull_append p body hh) (by omega)
    rw [feeds_turn_iff hbody, turn_body (p := p) rfl hh body (k := body.length) (by omega),
      List.take_length, List.drop_length, if_neg (by rw [hc]; exact Bool.false_ne_true)]
    exact feeds_nil_iff.mpr rfl

/-- A packet that needs nothing and is not complete uses up no input. -/
theorem Lawful.not_feeds (hR : R.Lawful) (hh : R.headFull p = true) (hn : R.needsize p ≤ 0)
    (hc : R.complete p = false) (hbs : bs ≠ []) : ¬ ∃ t, Feeds R.turn (some p, tr) bs t := by
  apply not_feeds_of_stuck hbs
  rw [turn_body (p := p) rfl hh bs (k := 0) (by omega), List.take_zero, List.drop_zero,
    hR.append_nil, if_neg (by rw [hc]; exact Bool.false_ne_true)]

end

end PacketReader

end Reasoning
