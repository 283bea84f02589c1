import LuaServer.Reasoning.While

/-!
# Resumable — consumers of a stream that do not see its cuts

A consumer takes a non-empty piece of input, uses some of it in one turn and hands back what it has
not used.  Fed with a piece it is turned until nothing is left.  A consumer is `Resumable` when a
turn that runs out of input can be continued on the input that follows; such a consumer, fed with
the pieces of a stream one after another, does what it does when fed with the whole stream at once,
and ends or spins in the same cases.
-/

namespace Reasoning

variable {σ α : Type*}

/-- `Feeds turn s bs t`: turned on `bs` until it is used up, the consumer goes from `s` to `t`. -/
def Feeds (turn : σ → List α → σ × List α) (s : σ) (bs : List α) (t : σ) : Prop :=
  Returns (fun p : σ × List α => !p.2.isEmpty) (fun p => turn p.1 p.2) (s, bs) (t, [])

/-- The pieces of `cs` are fed one after another. -/
def FeedsAll (turn : σ → List α → σ × List α) : σ → List (List α) → σ → Prop
  | s, [], t => t = s
  | s, c :: cs, t => ∃ m, Feeds turn s c m ∧ FeedsAll turn m cs t

/-- A turn cut short by the end of its input is the same turn as on the longer input: it either
ends exactly there or is continued by the next turn. -/
structure Resumable (turn : σ → List α → σ × List α) : Prop where
  frame : ∀ s a b, a ≠ [] → (turn s a).2 ≠ [] → turn s (a ++ b) = ((turn s a).1, (turn s a).2 ++ b)
  resume : ∀ s a b, a ≠ [] → b ≠ [] → (turn s a).2 = [] →
    turn s (a ++ b) = ((turn s a).1, b) ∨ turn s (a ++ b) = turn (turn s a).1 b

variable {turn : σ → List α → σ × List α}

/-! ## 1. One piece -/

@[simp] theorem feeds_nil_iff {s t : σ} : Feeds turn s [] t ↔ t = s := by
  unfold Feeds
  rw [returns_exit_iff (by simp)]
  simp

theorem feeds_turn_iff {s t : σ} {bs : List α} (h : bs ≠ []) :
    Feeds turn s bs t ↔ Feeds turn (turn s bs).1 (turn s bs).2 t := by
  unfold Feeds
  rw [returns_turn_iff (by simpa using h)]

theorem Feeds.unique {s t u : σ} {bs : List α} (ht : Feeds turn s bs t) (hu : Feeds turn s bs u) :
    t = u :=
  congrArg Prod.fst (Returns.unique ht hu)

/-- Induction over the turns by which a piece is used up. -/
theorem Feeds.induct {t : σ} {P : σ → List α → Prop} (hnil : P t [])
    (hturn : ∀ s bs, bs ≠ [] → Feeds turn (turn s bs).1 (turn s bs).2 t →
      P (turn s bs).1 (turn s bs).2 → P s bs)
    {s : σ} {bs : List α} (h : Feeds turn s bs t) : P s bs := by
  refine Returns.induct (P := fun p : σ × List α => P p.1 p.2) (fun _ => hnil) ?_ h
  rintro ⟨s, bs⟩ hc hf ih
  exact hturn s bs (by simpa using hc) hf ih

theorem Feeds.invariant {I : σ → Prop} (hI : ∀ s bs, bs ≠ [] → I s → I (turn s bs).1)
    {s t : σ} {bs : List α} (h : Feeds turn s bs t) (hs : I s) : I t := by
  revert hs
  refine h.induct (P := fun s _ => I s → I t) id ?_
  intro s bs hbs _ ih hs
  exact ih (hI s bs hbs hs)

/-- A turn that hands everything back and changes nothing is repeated for ever. -/
theorem not_feeds_of_stuck {s : σ} {bs : List α} (hbs : bs ≠ []) (hstuck : turn s bs = (s, bs)) :
    ¬ ∃ t, Feeds turn s bs t := by
  rintro ⟨t, ht⟩
  refine not_halts_of_invariant (fun p : σ × List α => p = (s, bs)) ?_ rfl ⟨(t, []), ht⟩
  rintro p rfl
  exact ⟨by simpa using hbs, hstuck⟩

/-! ## 2. Two pieces -/

/-- Feeding a stream is feeding its two halves. -/
theorem feeds_append_iff (hr : Resumable turn) {s t : σ} {a b : List α} :
    Feeds turn s (a ++ b) t ↔ ∃ m, Feeds turn s a m ∧ Feeds turn m b t := by
  constructor
  · intro h
    suffices H : ∀ x : List α, Feeds turn s x t → ∀ a, x = a ++ b →
        ∃ m, Feeds turn s a m ∧ Feeds turn m b t from H _ h a rfl
    intro x hx
    -- induction over the turns on the whole stream; `a` is what the next turns still have of it
    refine hx.induct (P := fun s x => ∀ a, x = a ++ b →
      ∃ m, Feeds turn s a m ∧ Feeds turn m b t) ?_ ?_
    · intro a hab
      obtain ⟨rfl, rfl⟩ := List.append_eq_nil_iff.mp hab.symm
      exact ⟨t, feeds_nil_iff.mpr rfl, feeds_nil_iff.mpr rfl⟩
    · rintro s x hx hrest ih a rfl
      by_cases ha : a = []
      · subst ha
        exact ⟨s, feeds_nil_iff.mpr rfl, (feeds_turn_iff hx).mpr hrest⟩
      by_cases hb : b = []
      · subst hb
        rw [List.append_nil] at hx hrest
        exact ⟨t, (feeds_turn_iff hx).mpr hrest, feeds_nil_iff.mpr rfl⟩
      by_cases hleft : (turn s a).2 = []
      · rcases hr.resume s a b ha hb hleft with he | he
        · rw [he] at hrest
          refine ⟨(turn s a).1, ?_, hrest⟩
          rw [feeds_turn_iff ha, hleft]
          exact feeds_nil_iff.mpr rfl
        · rw [he] at hrest
          refine ⟨(turn s a).1, ?_, (feeds_turn_iff hb).mpr hrest⟩
          rw [feeds_turn_iff ha, hleft]
          exact feeds_nil_iff.mpr rfl
      · have he := hr.frame s a b ha hleft
        rw [he] at ih
        obtain ⟨m, hm, hmt⟩ := ih (turn s a).2 rfl
        exact ⟨m, (feeds_turn_iff ha).mpr hm, hmt⟩
  · rintro ⟨m, hm, hmt⟩
    refine hm.induct (P := fun s a => Feeds turn s (a ++ b) t) hmt ?_
    intro s a ha hrest ih
    by_cases hb : b = []
    · subst hb
      obtain rfl := feeds_nil_iff.mp hmt
      rw [List.append_nil]
      exact (feeds_turn_iff ha).mpr hrest
    have hab : a ++ b ≠ [] := by simp [ha]
    rw [feeds_turn_iff hab]
    by_cases hleft : (turn s a).2 = []
    · rw [hleft] at ih
      rcases hr.resume s a b ha hb hleft with he | he
      · rw [he]
        exact ih
      · rw [he]
        exact (feeds_turn_iff hb).mp ih
    · rw [hr.frame s a b ha hleft]
      exact ih

/-! ## 3. Any number of pieces -/

theorem feedsAll_iff (hr : Resumable turn) {s t : σ} {cs : List (List α)} :
    FeedsAll turn s cs t ↔ Feeds turn s cs.flatten t := by
  induction cs generalizing s with
  | nil => simp [FeedsAll]
  | cons c cs ih =>
    rw [List.flatten_cons, feeds_append_iff hr]
    simp only [FeedsAll, ih]

/-! ## 4. What holds at every turn -/

/-- `P` holds in all states in which a turn begins or the input is used up. -/
def Throughout (turn : σ → List α → σ × List α) (P : σ → Prop) (s : σ) (bs : List α) : Prop :=
  ∀ q, Turns (fun p : σ × List α => !p.2.isEmpty) (fun p => turn p.1 p.2) (s, bs) q → P q.1

section
variable {P : σ → Prop}

theorem throughout_nil_iff {s : σ} : Throughout turn P s [] ↔ P s := by
  constructor
  · intro h
    exact h _ (.here _)
  · intro hs q hq
    rcases turns_iff.mp hq with rfl | ⟨hc, -⟩
    · exact hs
    · simp at hc

theorem throughout_turn_iff {s : σ} {bs : List α} (hbs : bs ≠ []) :
    Throughout turn P s bs ↔ P s ∧ Throughout turn P (turn s bs).1 (turn s bs).2 := by
  have hc : (!bs.isEmpty) = true := by simpa using hbs
  constructor
  · intro h
    exact ⟨h _ (.here _), fun q hq => h q (.turn hc hq)⟩
  · rintro ⟨hs, h⟩ q hq
    rcases turns_iff.mp hq with rfl | ⟨-, hq⟩
    · exact hs
    · exact h q hq

/-- A turn that hands everything back and changes nothing leads nowhere else. -/
theorem throughout_stuck_iff {s : σ} {bs : List α} (hstuck : turn s bs = (s, bs)) :
    Throughout turn P s bs ↔ P s := by
  constructor
  · intro h
    exact h _ (.here _)
  · intro hs q hq
    have hq' : q = (s, bs) := by
      apply hq.invariant (I := fun p => p = (s, bs))
      · rintro p rfl -
        exact hstuck
      · rfl
    rw [hq']
    exact hs

theorem Throughout.head {s : σ} {bs : List α} (h : Throughout turn P s bs) : P s :=
  h (s, bs) (.here _)

/-- What holds at the end held all the time, provided that a turn cannot repair a bad state. -/
theorem Feeds.throughout (hP : ∀ s bs, P (turn s bs).1 → P s) {s m : σ} {bs : List α}
    (h : Feeds turn s bs m) (hm : P m) : Throughout turn P s bs := by
  refine h.induct (P := fun s bs => Throughout turn P s bs) (throughout_nil_iff.mpr hm) ?_
  intro s bs hbs _ ih
  exact (throughout_turn_iff hbs).mpr ⟨hP s bs ih.head, ih⟩

/-- What holds throughout a stream holds throughout its halves, provided that a turn cannot repair
a bad state. -/
theorem throughout_append_iff (hr : Resumable turn) (hP : ∀ s bs, P (turn s bs).1 → P s)
    {s m : σ} {a b : List α} (h : Feeds turn s a m) :
    Throughout turn P s (a ++ b) ↔ Throughout turn P s a ∧ Throughout turn P m b := by
  refine h.induct (P := fun s a => Throughout turn P s (a ++ b) ↔
    Throughout turn P s a ∧ Throughout turn P m b) ?_ ?_
  · rw [List.nil_append, throughout_nil_iff]
    exact ⟨fun h => ⟨h.head, h⟩, fun h => h.2⟩
  · intro s a ha hrest ih
    by_cases hb : b = []
    · subst hb
      rw [List.append_nil] at ih ⊢
      rw [throughout_turn_iff ha, and_assoc, ← ih]
    have hab : a ++ b ≠ [] := by simp [ha]
    rw [throughout_turn_iff ha, throughout_turn_iff hab, and_assoc]
    by_cases hleft : (turn s a).2 = []
    · -- the turn on `a` ends the first half
      rw [hleft] at hrest ih ⊢
      obtain rfl := feeds_nil_iff.mp hrest
      rw [throughout_nil_iff]
      rcases hr.resume s a b ha hb hleft with he | he
      · rw [he]
        exact ⟨fun h => ⟨h.1, h.2.head, h.2⟩, fun h => ⟨h.1, h.2.2⟩⟩
      · rw [he, throughout_turn_iff hb]
        exact ⟨fun h => ⟨h.1, hP _ _ h.2.head, hP _ _ h.2.head, h.2⟩, fun h => ⟨h.1, h.2.2.2⟩⟩
    · rw [hr.frame s a b ha hleft, ih]

end

end Reasoning
