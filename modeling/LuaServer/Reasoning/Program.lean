import Mathlib.Tactic.Common

/-!
# Program — programs with a state that may stop

A program runs from a state and gives a value or the reason for which it has stopped, and the state
afterwards in both cases.  `wp m E Q s` says that `m`, started in `s`, ends with a value and a state
that satisfy `Q`, or stops with a reason and a state that satisfy `E`.
-/

namespace Reasoning

variable {ε σ α β : Type}

/-- A value, or the reason to stop, and the state. -/
def Prog (ε σ α : Type) : Type := σ → Except ε α × σ

namespace Prog

instance : Monad (Prog ε σ) where
  pure a := fun s => (.ok a, s)
  bind m f := fun s =>
    match m s with
    | (.ok a, t) => f a t
    | (.error e, t) => (.error e, t)

def stop (e : ε) : Prog ε σ α := fun s => (.error e, s)

def get : Prog ε σ σ := fun s => (.ok s, s)

def update (f : σ → σ) : Prog ε σ Unit := fun s => (.ok (), f s)

def wp (m : Prog ε σ α) (E : ε → σ → Prop) (Q : α → σ → Prop) (s : σ) : Prop :=
  match m s with
  | (.ok a, t) => Q a t
  | (.error e, t) => E e t

variable {E E' : ε → σ → Prop} {Q Q' : α → σ → Prop} {s : σ}

theorem wp_pure {a : α} (h : Q a s) : wp (pure a : Prog ε σ α) E Q s := h

theorem wp_stop {e : ε} (h : E e s) : wp (stop e) E Q s := h

theorem wp_get {Q : σ → σ → Prop} (h : Q s s) : wp (get : Prog ε σ σ) E Q s := h

theorem wp_update {f : σ → σ} {Q : Unit → σ → Prop} (h : Q () (f s)) :
    wp (update f : Prog ε σ Unit) E Q s := h

theorem wp_mono {m : Prog ε σ α} (h : wp m E Q s) (hE : ∀ e t, E e t → E' e t)
    (hQ : ∀ a t, Q a t → Q' a t) : wp m E' Q' s := by
  unfold wp at h ⊢
  split
  · next a t heq =>
    rw [heq] at h
    exact hQ a t h
  · next e t heq =>
    rw [heq] at h
    exact hE e t h

theorem bind_apply (m : Prog ε σ β) (f : β → Prog ε σ α) (s : σ) :
    (m >>= f) s = match m s with
      | (.ok b, t) => f b t
      | (.error e, t) => (.error e, t) := rfl

/-- The rest runs from where the first part ends. -/
theorem wp_bind {m : Prog ε σ β} {f : β → Prog ε σ α} {P : β → σ → Prop} (h : wp m E P s)
    (hf : ∀ b t, P b t → wp (f b) E Q t) : wp (m >>= f) E Q s := by
  unfold wp at h ⊢
  rw [bind_apply]
  cases heq : m s with
  | mk r t =>
    rw [heq] at h
    cases r with
    | ok b => exact hf b t h
    | error e => exact h

theorem wp_ite {c : Prop} [Decidable c] {m m' : Prog ε σ α} (h : c → wp m E Q s)
    (h' : ¬ c → wp m' E Q s) : wp (if c then m else m') E Q s := by
  by_cases hc : c
  · rw [if_pos hc]
    exact h hc
  · rw [if_neg hc]
    exact h' hc

/-- A program that stops for no reason gives a value. -/
theorem exists_of_wp {m : Prog ε σ α} (h : wp m (fun _ _ => False) Q s) :
    ∃ a t, m s = (.ok a, t) ∧ Q a t := by
  unfold wp at h
  split at h
  · next a t heq => exact ⟨a, t, heq, h⟩
  · exact h.elim

end Prog

end Reasoning
