import Mathlib.Tactic.Common

/-!
# Transition — runs of a system that takes one action after another

`step s a` is the state after the action `a`, if `a` is possible in `s`.  A run is a list of
actions.  `Always P` says that a run passes only through states with `P`, `Meets C` that each of its
actions satisfies `C` in the state in which it is taken.

Where an action that does not come to its end is a failure, `Safe R` says that every action comes to
its end and satisfies `R`, and `Allowed C` that it satisfies `C` when it is taken.
-/

namespace Reasoning

variable {σ α : Type*}

/-- The state after a list of actions, if all of them are possible. -/
def run (step : σ → α → Option σ) : σ → List α → Option σ
  | s, [] => some s
  | s, a :: as => (step s a).bind fun t => run step t as

/-- `t` is the state after some list of actions. -/
def Reachable (step : σ → α → Option σ) (s t : σ) : Prop := ∃ as, run step s as = some t

def Always (P : σ → Prop) (step : σ → α → Option σ) : σ → List α → Prop
  | s, [] => P s
  | s, a :: as => P s ∧ ∀ t, step s a = some t → Always P step t as

def Meets (C : σ → α → Prop) (step : σ → α → Option σ) : σ → List α → Prop
  | _, [] => True
  | s, a :: as => ∀ t, step s a = some t → C s a ∧ Meets C step t as

def Safe (R : σ → α → σ → Prop) (step : σ → α → Option σ) : σ → List α → Prop
  | _, [] => True
  | s, a :: as => ∃ t, step s a = some t ∧ R s a t ∧ Safe R step t as

def Allowed (C : σ → α → Prop) (step : σ → α → Option σ) : σ → List α → Prop
  | _, [] => True
  | s, a :: as => C s a ∧ match step s a with
    | none => True
    | some t => Allowed C step t as

variable {step : σ → α → Option σ} {I P : σ → Prop} {C : σ → α → Prop}

instance Allowed.decidable [∀ s a, Decidable (C s a)] :
    ∀ (s : σ) (as : List α), Decidable (Allowed C step s as)
  | _, [] => .isTrue trivial
  | s, a :: as =>
    have : Decidable (match step s a with
        | none => True
        | some t => Allowed C step t as) :=
      match step s a with
      | none => .isTrue trivial
      | some t => Allowed.decidable t as
    inferInstanceAs (Decidable (_ ∧ _))

theorem run_cons_iff {s t : σ} {a : α} {as : List α} :
    run step s (a :: as) = some t ↔ ∃ m, step s a = some m ∧ run step m as = some t := by
  rw [run, Option.bind_eq_some_iff]

theorem run_append_iff {s t : σ} {as bs : List α} :
    run step s (as ++ bs) = some t ↔ ∃ m, run step s as = some m ∧ run step m bs = some t := by
  induction as generalizing s with
  | nil => simp [run]
  | cons a as ih =>
    simp only [List.cons_append, run_cons_iff, ih]
    constructor
    · rintro ⟨m, hm, u, hu, ht⟩
      exact ⟨u, ⟨m, hm, hu⟩, ht⟩
    · rintro ⟨u, ⟨m, hm, hu⟩, ht⟩
      exact ⟨m, hm, u, hu, ht⟩

/-- What every action keeps holds in every reachable state. -/
theorem Reachable.invariant (hI : ∀ s a t, I s → step s a = some t → I t) {s t : σ}
    (h : Reachable step s t) (hs : I s) : I t := by
  obtain ⟨as, has⟩ := h
  induction as generalizing s with
  | nil =>
    cases has
    exact hs
  | cons a as ih =>
    obtain ⟨m, hm, ht⟩ := run_cons_iff.mp has
    exact ih (hI s a m hs hm) ht

theorem Always.head {s : σ} {as : List α} (h : Always P step s as) : P s := by
  cases as with
  | nil => exact h
  | cons a as => exact h.1

theorem Always.reached {s t : σ} {as : List α} (h : Always P step s as)
    (hrun : run step s as = some t) : P t := by
  induction as generalizing s with
  | nil =>
    cases hrun
    exact h
  | cons a as ih =>
    obtain ⟨m, hm, ht⟩ := run_cons_iff.mp hrun
    exact ih (h.2 m hm) ht

theorem Allowed.meets {s : σ} {as : List α} (h : Allowed C step s as) : Meets C step s as := by
  induction as generalizing s with
  | nil => trivial
  | cons a as ih =>
    intro t ht
    obtain ⟨hC, hrest⟩ := h
    rw [ht] at hrest
    exact ⟨hC, ih hrest⟩

/-- When in good states an action leads to a good state exactly if it satisfies `C`, a run from a
good state stays good exactly if all its actions satisfy `C`. -/
theorem always_iff_meets (hI : ∀ s a t, I s → step s a = some t → I t)
    (hP : ∀ s a t, I s → P s → step s a = some t → (P t ↔ C s a)) {s : σ} (hs : I s) (hgood : P s)
    (as : List α) : Always P step s as ↔ Meets C step s as := by
  induction as generalizing s with
  | nil => exact iff_of_true hgood trivial
  | cons a as ih =>
    constructor
    · rintro ⟨-, hrest⟩ t ht
      have htgood := (hrest t ht).head
      exact ⟨(hP s a t hs hgood ht).mp htgood, (ih (hI s a t hs ht) htgood).mp (hrest t ht)⟩
    · intro hmeets
      refine ⟨hgood, fun t ht => ?_⟩
      obtain ⟨hc, hrest⟩ := hmeets t ht
      exact (ih (hI s a t hs ht) ((hP s a t hs hgood ht).mpr hc)).mpr hrest

/-- Two runs of the same actions stay related when related states allow the same actions and those
that satisfy `C` on both sides lead to related states. -/
theorem run_related {R : σ → σ → Prop}
    (hR : ∀ s s' a t, R s s' → C s a → step s a = some t →
      ∃ t', step s' a = some t' ∧ (C s' a → R t t'))
    {s s' t : σ} {as : List α} (hs : R s s') (hmeets : Meets C step s as)
    (hmeets' : Meets C step s' as) (h : run step s as = some t) :
    ∃ t', run step s' as = some t' ∧ R t t' := by
  induction as generalizing s s' with
  | nil =>
    cases h
    exact ⟨s', rfl, hs⟩
  | cons a as ih =>
    obtain ⟨m, hm, ht⟩ := run_cons_iff.mp h
    obtain ⟨hc, hrest⟩ := hmeets m hm
    obtain ⟨m', hm', hrel⟩ := hR s s' a m hs hc hm
    obtain ⟨hc', hrest'⟩ := hmeets' m' hm'
    obtain ⟨t', ht', hrt⟩ := ih (hrel hc') hrest hrest' ht
    exact ⟨t', run_cons_iff.mpr ⟨m', hm', ht'⟩, hrt⟩

theorem allowed_of_forall (h : ∀ s a, C s a) (s : σ) (as : List α) : Allowed C step s as := by
  induction as generalizing s with
  | nil => trivial
  | cons a as ih =>
    refine ⟨h s a, ?_⟩
    cases step s a with
    | none => trivial
    | some t => exact ih t

theorem Allowed.next {s t : σ} {a : α} {as : List α} (h : Allowed C step s (a :: as))
    (ht : step s a = some t) : Allowed C step t as := by
  have hrest := h.2
  rwa [ht] at hrest

/-- What the actions with `C` keep holds at the end of a run of such actions. -/
theorem Allowed.invariant (hI : ∀ s a t, I s → C s a → step s a = some t → I t) {s t : σ}
    {as : List α} (h : Allowed C step s as) (hrun : run step s as = some t) (hs : I s) : I t := by
  induction as generalizing s with
  | nil =>
    cases hrun
    exact hs
  | cons a as ih =>
    obtain ⟨m, hm, ht⟩ := run_cons_iff.mp hrun
    exact ih (h.next hm) ht (hI s a m hs h.1 hm)

/-- A safe run comes to its end. -/
theorem Safe.reached {s : σ} {as : List α} (h : Safe (fun _ _ t => P t) step s as) (hs : P s) :
    ∃ t, run step s as = some t ∧ P t := by
  induction as generalizing s with
  | nil => exact ⟨s, rfl, hs⟩
  | cons a as ih =>
    obtain ⟨m, hm, hp, hsafe⟩ := h
    obtain ⟨t, ht, hpt⟩ := ih hsafe hp
    exact ⟨t, run_cons_iff.mpr ⟨m, hm, ht⟩, hpt⟩

/-- A run whose actions all satisfy `C` is safe when `C` lets an action come to its end, satisfy `R`
and keep the invariant. -/
theorem safe_of_allowed {R : σ → α → σ → Prop}
    (hstep : ∀ s a, I s → C s a → ∃ t, step s a = some t ∧ R s a t ∧ I t) {s : σ} (hs : I s)
    {as : List α} (h : Allowed C step s as) : Safe R step s as := by
  induction as generalizing s with
  | nil => trivial
  | cons a as ih =>
    obtain ⟨t, ht, hr, hi⟩ := hstep s a hs h.1
    exact ⟨t, ht, hr, ih hi (h.next ht)⟩

/-- Of the runs with `E`, the safe ones are those whose actions all satisfy `C`. -/
theorem safe_iff_allowed {R : σ → α → σ → Prop} {E : σ → α → Prop}
    (hstep : ∀ s a, I s → E s a → C s a → ∃ t, step s a = some t ∧ R s a t ∧ I t)
    (hback : ∀ s a t, I s → E s a → step s a = some t → R s a t → C s a) {s : σ} (hs : I s)
    {as : List α} (h : Allowed E step s as) : Safe R step s as ↔ Allowed C step s as := by
  induction as generalizing s with
  | nil => exact iff_of_true trivial trivial
  | cons a as ih =>
    constructor
    · rintro ⟨t, ht, hr, hsafe⟩
      have hc := hback s a t hs h.1 ht hr
      obtain ⟨u, hu, -, hi⟩ := hstep s a hs h.1 hc
      obtain rfl : u = t := Option.some.inj (hu.symm.trans ht)
      refine ⟨hc, ?_⟩
      rw [ht]
      exact (ih hi (h.next ht)).mp hsafe
    · intro hallowed
      obtain ⟨t, ht, hr, hi⟩ := hstep s a hs h.1 hallowed.1
      exact ⟨t, ht, hr, (ih hi (h.next ht)).mpr (hallowed.next ht)⟩

/-- The same for a condition on the actions alone. -/
theorem safe_iff_forall {R : σ → α → σ → Prop} {E : σ → α → Prop} {D : α → Prop}
    (hstep : ∀ s a, I s → E s a → D a → ∃ t, step s a = some t ∧ R s a t ∧ I t)
    (hback : ∀ s a t, I s → E s a → step s a = some t → R s a t → D a) {s : σ} (hs : I s)
    {as : List α} (h : Allowed E step s as) : Safe R step s as ↔ ∀ a ∈ as, D a := by
  induction as generalizing s with
  | nil => exact iff_of_true trivial fun a ha => absurd ha List.not_mem_nil
  | cons a as ih =>
    rw [List.forall_mem_cons]
    constructor
    · rintro ⟨t, ht, hr, hsafe⟩
      have hd := hback s a t hs h.1 ht hr
      obtain ⟨u, hu, -, hi⟩ := hstep s a hs h.1 hd
      obtain rfl : u = t := Option.some.inj (hu.symm.trans ht)
      exact ⟨hd, (ih hi (h.next ht)).mp hsafe⟩
    · rintro ⟨hd, hrest⟩
      obtain ⟨t, ht, hr, hi⟩ := hstep s a hs h.1 hd
      exact ⟨t, ht, hr, (ih hi (h.next ht)).mpr hrest⟩

/-- The same where being safe is no more than coming to an end. -/
theorem safe_iff_allowed_of_isSome {E : σ → α → Prop}
    (hiff : ∀ s a, I s → E s a → ((step s a).isSome = true ↔ C s a))
    (hI : ∀ s a t, I s → step s a = some t → I t) {s : σ} (hs : I s) {as : List α}
    (h : Allowed E step s as) : Safe (fun _ _ _ => True) step s as ↔ Allowed C step s as := by
  refine safe_iff_allowed (I := I) ?_ ?_ hs h
  · intro s a hs he hc
    obtain ⟨t, ht⟩ := Option.isSome_iff_exists.mp ((hiff s a hs he).mpr hc)
    exact ⟨t, ht, trivial, hI s a t hs ht⟩
  · intro s a t hs he ht _
    exact (hiff s a hs he).mp (Option.isSome_of_eq_some ht)

/-- What the actions of a run put out. -/
def outputs {ω : Type*} (step : σ → α → σ × List ω) : σ → List α → List ω
  | _, [] => []
  | s, a :: as => (step s a).2 ++ outputs step (step s a).1 as

/-- Two systems that stay related and put out the same at each step put out the same in all. -/
theorem outputs_eq {τ ω : Type*} {step : σ → α → σ × List ω} {step' : τ → α → τ × List ω}
    {R : σ → τ → Prop}
    (hR : ∀ s t a, R s t → R (step s a).1 (step' t a).1 ∧ (step s a).2 = (step' t a).2) {s : σ}
    {t : τ} (h : R s t) (as : List α) : outputs step s as = outputs step' t as := by
  induction as generalizing s t with
  | nil => rfl
  | cons a as ih =>
    obtain ⟨hnext, hout⟩ := hR s t a h
    rw [outputs, outputs, hout, ih hnext]

end Reasoning
