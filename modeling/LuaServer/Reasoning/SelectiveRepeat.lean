import Mathlib.Data.List.Infix
import Mathlib.Data.Set.Insert
import Mathlib.Logic.Relation
import Mathlib.Order.BooleanAlgebra.Set

/-!
# SelectiveRepeat — one direction of a conversation over an unreliable network

The sender gives numbers to what it has to send and keeps each item until it learns that it has
arrived; the receiver keeps what comes ahead of its turn, and hands out what has come in order.  The
network may lose, repeat and reorder: it only brings numbers that the sender has given, and
acknowledgements of what has arrived.
-/

namespace Reasoning

open Relation

/-- `sent` are the items that have numbers, in their order; `taken` have been handed out. -/
structure Transfer (α : Type*) where
  sent : List α
  waiting : List α
  pending : Set ℕ
  expected : ℕ
  early : Set ℕ
  taken : ℕ

namespace Transfer

variable {α : Type*} {t t' t'' : Transfer α} {i : ℕ}

def empty : Transfer α := ⟨[], [], ∅, 0, ∅, 0⟩

/-- The item with this number has arrived. -/
def Has (t : Transfer α) (i : ℕ) : Prop := i < t.expected ∨ i ∈ t.early

/-! ## 1. Steps -/

/-- The sender changes what has no number yet, gives the next number, or forgets items that have
arrived. -/
inductive Send : Transfer α → Transfer α → Prop
  | offer (t : Transfer α) (waiting : List α) : Send t { t with waiting := waiting }
  | number (t : Transfer α) (x : α) (rest : List α) (h : t.waiting = x :: rest) :
      Send t { t with
        sent := t.sent ++ [x]
        waiting := rest
        pending := insert t.sent.length t.pending }
  | confirm (t : Transfer α) (gone : Set ℕ) (h : ∀ i ∈ gone, t.Has i) :
      Send t { t with pending := t.pending \ gone }

/-- An item arrives, or the next one in order is ready. -/
inductive Receive : Transfer α → Transfer α → Prop
  | arrive (t : Transfer α) (i : ℕ) (h : i < t.sent.length) :
      Receive t { t with early := insert i t.early }
  | advance (t : Transfer α) (h : t.expected ∈ t.early) :
      Receive t { t with expected := t.expected + 1, early := t.early \ {t.expected} }

/-- Some of what is ready is handed out. -/
def handOut (t : Transfer α) (k : ℕ) : Transfer α := { t with taken := t.taken + k }

abbrev Sends : Transfer α → Transfer α → Prop := ReflTransGen Send

abbrev Receives : Transfer α → Transfer α → Prop := ReflTransGen Receive

/-- Nothing is handed out that was not sent, and nothing is forgotten that has not arrived. -/
structure Inv (t : Transfer α) : Prop where
  taken_le : t.taken ≤ t.expected
  expected_le : t.expected ≤ t.sent.length
  early_lt : ∀ i ∈ t.early, i < t.sent.length
  kept : ∀ i < t.sent.length, i ∈ t.pending ∨ t.Has i

theorem empty_inv : (empty : Transfer α).Inv where
  taken_le := Nat.le_refl _
  expected_le := Nat.le_refl _
  early_lt := fun _ hi => nomatch hi
  kept := fun _ hi => nomatch hi

theorem Send.inv (h : Send t t') (hi : t.Inv) : t'.Inv := by
  cases h with
  | offer waiting => exact ⟨hi.taken_le, hi.expected_le, hi.early_lt, hi.kept⟩
  | number x rest hw =>
    have hlen : (t.sent ++ [x]).length = t.sent.length + 1 := by simp
    refine ⟨hi.taken_le, ?_, ?_, ?_⟩
    · exact hlen ▸ Nat.le_succ_of_le hi.expected_le
    · exact fun i hmem => hlen ▸ Nat.lt_succ_of_lt (hi.early_lt i hmem)
    · intro i hlt
      rcases Nat.lt_succ_iff_lt_or_eq.mp (hlen ▸ hlt) with hlt | rfl
      · exact (hi.kept i hlt).imp_left fun hmem => Set.mem_insert_of_mem _ hmem
      · exact .inl (Set.mem_insert _ _)
  | confirm gone hgone =>
    refine ⟨hi.taken_le, hi.expected_le, hi.early_lt, ?_⟩
    intro i hlt
    by_cases hmem : i ∈ gone
    · exact .inr (hgone i hmem)
    · exact (hi.kept i hlt).imp_left fun hpending => ⟨hpending, hmem⟩

theorem Receive.has (h : Receive t t') (hi : t.Has i) : t'.Has i := by
  cases h with
  | arrive j hj => exact hi.imp_right fun hmem => Set.mem_insert_of_mem _ hmem
  | advance he =>
    rcases hi with hlt | hmem
    · exact .inl (Nat.lt_succ_of_lt hlt)
    · by_cases heq : i = t.expected
      · exact .inl (heq ▸ Nat.lt_succ_self _)
      · exact .inr ⟨hmem, heq⟩

theorem Receive.inv (h : Receive t t') (hi : t.Inv) : t'.Inv := by
  have hkept : ∀ i < t.sent.length, i ∈ t.pending ∨ t'.Has i :=
    fun i hlt => (hi.kept i hlt).imp_right h.has
  cases h with
  | arrive j hj =>
    refine ⟨hi.taken_le, hi.expected_le, ?_, hkept⟩
    rintro i (rfl | hmem)
    · exact hj
    · exact hi.early_lt i hmem
  | advance he =>
    exact ⟨Nat.le_succ_of_le hi.taken_le, hi.early_lt _ he, fun i hmem => hi.early_lt i hmem.1,
      hkept⟩

theorem Inv.handOut (hi : t.Inv) {k : ℕ} (hk : t.taken + k ≤ t.expected) : (t.handOut k).Inv :=
  ⟨hk, hi.expected_le, hi.early_lt, hi.kept⟩

/-! ## 2. Runs -/

theorem Sends.inv (h : Sends t t') (hi : t.Inv) : t'.Inv := by
  induction h with
  | refl => exact hi
  | tail _ hstep ih => exact hstep.inv ih

theorem Receives.inv (h : Receives t t') (hi : t.Inv) : t'.Inv := by
  induction h with
  | refl => exact hi
  | tail _ hstep ih => exact hstep.inv ih

/-- What the receiver knows is left alone by the sender, and numbers stay given. -/
theorem Sends.frame (h : Sends t t') : t'.expected = t.expected ∧ t'.early = t.early ∧
    t'.taken = t.taken ∧ t.sent <+: t'.sent := by
  induction h with
  | refl => exact ⟨rfl, rfl, rfl, List.prefix_refl _⟩
  | tail _ hstep ih =>
    obtain ⟨hexpected, hearly, htaken, hsent⟩ := ih
    cases hstep with
    | offer waiting => exact ⟨hexpected, hearly, htaken, hsent⟩
    | number x rest hw => exact ⟨hexpected, hearly, htaken, hsent.trans (List.prefix_append _ _)⟩
    | confirm gone hgone => exact ⟨hexpected, hearly, htaken, hsent⟩

theorem Sends.has_iff (h : Sends t t') : t'.Has i ↔ t.Has i := by
  obtain ⟨hexpected, hearly, -, -⟩ := h.frame
  rw [Has, Has, hexpected, hearly]

/-- The receiver leaves alone what the sender has. -/
theorem Receives.frame (h : Receives t t') : t'.sent = t.sent ∧ t'.waiting = t.waiting ∧
    t'.pending = t.pending ∧ t'.taken = t.taken := by
  induction h with
  | refl => exact ⟨rfl, rfl, rfl, rfl⟩
  | tail _ hstep ih =>
    cases hstep with
    | arrive i hi => exact ih
    | advance he => exact ih

theorem Receives.expected_le (h : Receives t t') : t.expected ≤ t'.expected := by
  induction h with
  | refl => exact Nat.le_refl _
  | tail _ hstep ih =>
    cases hstep with
    | arrive i hi => exact ih
    | advance he => exact Nat.le_succ_of_le ih

theorem Receives.has (h : Receives t t') (hi : t.Has i) : t'.Has i := by
  induction h with
  | refl => exact hi
  | tail _ hstep ih => exact hstep.has ih

/-- Some items that have arrived are forgotten, and nothing else. -/
def Forgets (t t' : Transfer α) : Prop :=
  ∃ gone, (∀ i ∈ gone, t.Has i) ∧ t' = { t with pending := t.pending \ gone }

theorem Forgets.refl (t : Transfer α) : t.Forgets t :=
  ⟨∅, fun _ h => absurd h (Set.notMem_empty _), by rw [Set.sdiff_empty]⟩

theorem Forgets.trans (h : t.Forgets t') (h' : t'.Forgets t'') : t.Forgets t'' := by
  obtain ⟨gone, hgone, rfl⟩ := h
  obtain ⟨gone', hgone', rfl⟩ := h'
  refine ⟨gone ∪ gone', ?_, by rw [Set.sdiff_sdiff]⟩
  rintro i (hi | hi)
  · exact hgone i hi
  · exact hgone' i hi

theorem Forgets.sends (h : t.Forgets t') : Sends t t' := by
  obtain ⟨gone, hgone, rfl⟩ := h
  exact ReflTransGen.single (Send.confirm t gone hgone)

theorem Forgets.sent (h : t.Forgets t') : t'.sent = t.sent ∧ t'.waiting = t.waiting := by
  obtain ⟨gone, -, rfl⟩ := h
  exact ⟨rfl, rfl⟩

/-! ## 3. What has arrived -/

/-- What is ready to be handed out. -/
def ready (t : Transfer α) : List α := (t.sent.take t.expected).drop t.taken

theorem Inv.ready_length (hi : t.Inv) : t.ready.length = t.expected - t.taken := by
  rw [ready, List.length_drop, List.length_take, Nat.min_eq_left hi.expected_le]

/-- The item that is next in order is ready when `expected` advances. -/
theorem Inv.ready_advance (hi : t.Inv) {x : α} (hx : t.sent[t.expected]? = some x)
    (early : Set ℕ) :
    ({ t with expected := t.expected + 1, early := early } : Transfer α).ready = t.ready ++ [x] := by
  have htaken : t.taken ≤ (t.sent.take t.expected).length := by
    rw [List.length_take, Nat.min_eq_left hi.expected_le]
    exact hi.taken_le
  rw [ready, ready, List.take_add_one, hx, List.drop_append_of_le_length htaken]
  rfl

theorem ready_isPrefix (t : Transfer α) : t.ready <+: (t.sent ++ t.waiting).drop t.taken := by
  rw [ready]
  have hpre : t.sent.take t.expected <+: t.sent ++ t.waiting :=
    (List.take_prefix _ _).trans (List.prefix_append _ _)
  exact hpre.drop t.taken

end Transfer

end Reasoning
