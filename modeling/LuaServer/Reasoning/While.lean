import Mathlib.Tactic.Common

/-!
# While — `while` loops that may fail to end

A loop is a condition and a body on one state type.  `whileFuel` runs it for a bounded number of
turns, `Returns` is the result of the loop for some number of turns, and `Turns` reaches the states
in which the condition is evaluated.  A loop that does not end has no result.
-/

namespace Reasoning

variable {σ τ : Type*}

/-- The loop `while cond do body`, given up after `fuel` turns. -/
def whileFuel (cond : σ → Bool) (body : σ → σ) : Nat → σ → Option σ
  | 0, s => if cond s then none else some s
  | fuel + 1, s => if cond s then whileFuel cond body fuel (body s) else some s

/-- The loop ends in `t` when it is started in `s`. -/
def Returns (cond : σ → Bool) (body : σ → σ) (s t : σ) : Prop :=
  ∃ fuel, whileFuel cond body fuel s = some t

def Halts (cond : σ → Bool) (body : σ → σ) (s : σ) : Prop :=
  ∃ t, Returns cond body s t

/-- `t` is a loop head: a state in which the loop started in `s` evaluates its condition. -/
inductive Turns (cond : σ → Bool) (body : σ → σ) : σ → σ → Prop
  | here (s : σ) : Turns cond body s s
  | turn {s t : σ} : cond s = true → Turns cond body (body s) t → Turns cond body s t

variable {cond : σ → Bool} {body : σ → σ}

/-! ## 1. One turn -/

theorem returns_of_exit {s : σ} (h : cond s = false) : Returns cond body s s :=
  ⟨0, by simp [whileFuel, h]⟩

theorem returns_exit_iff {s t : σ} (h : cond s = false) : Returns cond body s t ↔ t = s := by
  constructor
  · rintro ⟨fuel, hf⟩
    cases fuel <;> simp [whileFuel, h] at hf <;> exact hf.symm
  · rintro rfl
    exact returns_of_exit h

theorem returns_turn_iff {s t : σ} (h : cond s = true) :
    Returns cond body s t ↔ Returns cond body (body s) t := by
  constructor
  · rintro ⟨fuel, hf⟩
    cases fuel with
    | zero => simp [whileFuel, h] at hf
    | succ n => exact ⟨n, by simpa [whileFuel, h] using hf⟩
  · rintro ⟨fuel, hf⟩
    exact ⟨fuel + 1, by simpa [whileFuel, h] using hf⟩

/-- Induction over the turns of a loop that ends. -/
theorem Returns.induct {t : σ} {P : σ → Prop} (hexit : cond t = false → P t)
    (hturn : ∀ s, cond s = true → Returns cond body (body s) t → P (body s) → P s)
    {s : σ} (h : Returns cond body s t) : P s := by
  obtain ⟨fuel, hf⟩ := h
  induction fuel generalizing s with
  | zero =>
    cases hc : cond s <;> simp only [whileFuel, hc] at hf
    · cases hf
      exact hexit hc
    · simp at hf
  | succ n ih =>
    cases hc : cond s <;> simp only [whileFuel, hc] at hf
    · cases hf
      exact hexit hc
    · exact hturn s hc ⟨n, hf⟩ (ih hf)

/-! ## 2. Results -/

theorem Returns.cond_eq {s t : σ} (h : Returns cond body s t) : cond t = false :=
  h.induct (P := fun _ => cond t = false) id fun _ _ _ ih => ih

theorem Returns.unique {s t u : σ} (ht : Returns cond body s t) (hu : Returns cond body s u) :
    t = u := by
  revert hu
  refine ht.induct (P := fun s => Returns cond body s u → t = u) ?_ ?_
  · intro hc hu
    exact ((returns_exit_iff hc).mp hu).symm
  · intro s hc _ ih hu
    exact ih ((returns_turn_iff hc).mp hu)

/-- What every turn keeps, the loop keeps. -/
theorem Returns.invariant {I : σ → Prop} (hI : ∀ s, I s → cond s = true → I (body s))
    {s t : σ} (h : Returns cond body s t) (hs : I s) : I t := by
  revert hs
  refine h.induct (P := fun s => I s → I t) (fun _ hs => hs) ?_
  intro s hc _ ih hs
  exact ih (hI s hs hc)

theorem Turns.invariant {I : σ → Prop} (hI : ∀ s, I s → cond s = true → I (body s))
    {s t : σ} (h : Turns cond body s t) (hs : I s) : I t := by
  induction h with
  | here => exact hs
  | turn hc _ ih => exact ih (hI _ hs hc)

theorem turns_iff {s t : σ} :
    Turns cond body s t ↔ t = s ∨ cond s = true ∧ Turns cond body (body s) t := by
  constructor
  · intro h
    cases h with
    | here => exact .inl rfl
    | turn hc h => exact .inr ⟨hc, h⟩
  · rintro (rfl | ⟨hc, h⟩)
    · exact .here t
    · exact .turn hc h

theorem Returns.turns {s t : σ} (h : Returns cond body s t) : Turns cond body s t :=
  h.induct (P := fun s => Turns cond body s t) (fun _ => .here t)
    fun _ hc _ ih => .turn hc ih

/-! ## 3. Termination -/

/-- A measure that every turn decreases makes the loop end. -/
theorem halts_of_measure (I : σ → Prop) (μ : σ → Nat)
    (hI : ∀ s, I s → cond s = true → I (body s) ∧ μ (body s) < μ s) {s : σ} (hs : I s) :
    Halts cond body s := by
  induction hn : μ s using Nat.strongRecOn generalizing s with
  | ind n ih =>
    cases hc : cond s with
    | false => exact ⟨s, returns_of_exit hc⟩
    | true =>
      obtain ⟨hs', hlt⟩ := hI s hs hc
      obtain ⟨t, ht⟩ := ih _ (hn ▸ hlt) hs' rfl
      exact ⟨t, (returns_turn_iff hc).mpr ht⟩

/-- A set of states that the loop never leaves and in which its condition holds. -/
theorem not_halts_of_invariant (I : σ → Prop)
    (hI : ∀ s, I s → cond s = true ∧ I (body s)) {s : σ} (hs : I s) : ¬ Halts cond body s := by
  rintro ⟨t, ht⟩
  have hst := ht.invariant (fun s hs _ => (hI s hs).2) hs
  have hc := (hI t hst).1
  rw [ht.cond_eq] at hc
  cases hc

theorem Turns.step {s t : σ} (h : Turns cond body s t) (hc : cond t = true) :
    Turns cond body s (body t) := by
  induction h with
  | here s => exact .turn hc (.here _)
  | turn hs _ ih => exact .turn hs (ih hc)

theorem Turns.halts {s t : σ} (h : Turns cond body s t) (hs : Halts cond body s) :
    Halts cond body t := by
  induction h with
  | here => exact hs
  | turn hc _ ih =>
    obtain ⟨u, hu⟩ := hs
    exact ih ⟨u, (returns_turn_iff hc).mp hu⟩

/-- A loop whose turns either decrease a measure or change nothing ends when none of its turns
changes nothing. -/
theorem halts_iff_moves (I : σ → Prop) (μ : σ → Nat)
    (hI : ∀ s, I s → cond s = true → I (body s) ∧ (μ (body s) < μ s ∨ body s = s))
    {s : σ} (hs : I s) :
    Halts cond body s ↔ ∀ q, Turns cond body s q → cond q = true → body q ≠ q := by
  constructor
  · intro hhalts q hq hc hstuck
    refine not_halts_of_invariant (fun p => p = q) ?_ rfl (hq.halts hhalts)
    rintro p rfl
    exact ⟨hc, hstuck⟩
  · intro hmoves
    refine halts_of_measure (fun q => I q ∧ Turns cond body s q) μ ?_ ⟨hs, .here s⟩
    rintro q ⟨hq, hturns⟩ hc
    obtain ⟨hq', hlt⟩ := hI q hq hc
    exact ⟨⟨hq', hturns.step hc⟩, hlt.resolve_right (hmoves q hturns hc)⟩

theorem Turns.returns {s t : σ} (h : Turns cond body s t) (hc : cond t = false) :
    Returns cond body s t := by
  induction h with
  | here => exact returns_of_exit hc
  | turn hs _ ih => exact (returns_turn_iff hs).mpr (ih hc)

/-- A loop that goes no further from a state outside `D` ends in `D` exactly when it ends and none of
its turns leads out of `D`. -/
theorem returns_in_iff {D : σ → Prop} (hexit : ∀ s, ¬ D s → cond s = false) {s : σ} (hs : D s) :
    (∃ t, Returns cond body s t ∧ D t) ↔
      Halts cond body s ∧ ∀ q, Turns cond body s q → cond q = true → D (body q) := by
  constructor
  · rintro ⟨t, ht, hd⟩
    refine ⟨⟨t, ht⟩, fun q hq hc => ?_⟩
    by_contra hout
    have hlast := (hq.step hc).returns (hexit _ hout)
    rw [ht.unique hlast] at hd
    exact hout hd
  · rintro ⟨⟨t, ht⟩, hall⟩
    refine ⟨t, ht, ?_⟩
    have hkept := ht.invariant (I := fun q => Turns cond body s q ∧ D q)
      (fun q hq hc => ⟨hq.1.step hc, hall q hq.1 hc⟩) ⟨.here s, hs⟩
    exact hkept.2

/-! ## 4. Two loops in step -/

/-- Two loops whose bodies agree through `f` on the states with `I` have the same results. -/
theorem returns_map {cond' : τ → Bool} {body' : τ → τ} (f : σ → τ) (I : σ → Prop)
    (hcond : ∀ s, I s → cond' (f s) = cond s)
    (hbody : ∀ s, I s → cond s = true → I (body s) ∧ body' (f s) = f (body s))
    {s : σ} (hs : I s) (u : τ) :
    Returns cond' body' (f s) u ↔ ∃ t, Returns cond body s t ∧ f t = u := by
  constructor
  · intro h
    -- the states of the second loop are images of states of the first
    suffices H : ∀ x, Returns cond' body' x u → ∀ s, I s → f s = x →
        ∃ t, Returns cond body s t ∧ f t = u from H _ h s hs rfl
    intro x hx
    refine hx.induct (P := fun x => ∀ s, I s → f s = x →
      ∃ t, Returns cond body s t ∧ f t = u) ?_ ?_
    · rintro hc s hs rfl
      exact ⟨s, returns_of_exit ((hcond s hs).symm.trans hc), rfl⟩
    · rintro x hc _ ih s hs rfl
      have hc' : cond s = true := (hcond s hs).symm.trans hc
      obtain ⟨hs', hb⟩ := hbody s hs hc'
      obtain ⟨t, ht, hu⟩ := ih (body s) hs' hb.symm
      exact ⟨t, (returns_turn_iff hc').mpr ht, hu⟩
  · rintro ⟨t, ht, rfl⟩
    revert hs
    refine ht.induct (P := fun s => I s → Returns cond' body' (f s) (f t)) ?_ ?_
    · intro hc hs
      exact returns_of_exit ((hcond t hs).trans hc)
    · intro s hc _ ih hs
      obtain ⟨hs', hb⟩ := hbody s hs hc
      rw [returns_turn_iff ((hcond s hs).trans hc), hb]
      exact ih hs'

/-- Two loops whose bodies agree through `f` on the states with `I` have the same loop heads. -/
theorem turns_map {cond' : τ → Bool} {body' : τ → τ} (f : σ → τ) (I : σ → Prop)
    (hcond : ∀ s, I s → cond' (f s) = cond s)
    (hbody : ∀ s, I s → cond s = true → I (body s) ∧ body' (f s) = f (body s))
    {s : σ} (hs : I s) (u : τ) :
    Turns cond' body' (f s) u ↔ ∃ t, Turns cond body s t ∧ f t = u := by
  constructor
  · generalize hx : f s = x
    intro h
    induction h generalizing s with
    | here => exact ⟨s, .here s, hx⟩
    | turn hc _ ih =>
      subst hx
      have hc' : cond s = true := (hcond s hs).symm.trans hc
      obtain ⟨hs', hb⟩ := hbody s hs hc'
      obtain ⟨t, ht, hu⟩ := ih hs' hb.symm
      exact ⟨t, .turn hc' ht, hu⟩
  · rintro ⟨t, ht, rfl⟩
    induction ht with
    | here => exact .here _
    | turn hc _ ih =>
      obtain ⟨hs', hb⟩ := hbody _ hs hc
      apply Turns.turn ((hcond _ hs).trans hc)
      rw [hb]
      exact ih hs'

end Reasoning
