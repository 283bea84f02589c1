import Mathlib.Tactic.Common
import Mathlib.Data.List.Nodup

/-!
# ObjectTable — objects that are made one after another and found by a key

`create` makes an object under a key and enters it in a table, in the place of whatever the table
has there.  `close` destroys an object if the table has an entry for its key.  The invariant says
that the table leads to objects that are alive; `Complete` says that it leads to all of them.
-/

namespace Reasoning

/-- The making of an object: its key, and the keys of the objects that were alive then. -/
structure Opening (κ : Type*) where
  object : Nat
  key : κ
  others : List κ

structure ObjectTable (κ : Type*) where
  table : κ → Option Nat
  -- the key of an object that is alive
  key : Nat → Option κ
  created : Nat
  destroyed : List Nat
  openings : List (Opening κ)

namespace ObjectTable

variable {κ : Type*}

def empty : ObjectTable κ := ⟨fun _ => none, fun _ => none, 0, [], []⟩

/-- The keys of the objects that are alive. -/
def alive (t : ObjectTable κ) : List κ := (List.range t.created).filterMap t.key

/-- The table leads to objects that are alive; every other object has been destroyed once. -/
structure Inv (t : ObjectTable κ) : Prop where
  key_of_table : ∀ {k p}, t.table k = some p → t.key p = some k
  alive_iff : ∀ p, (t.key p).isSome ↔ p < t.created ∧ p ∉ t.destroyed
  destroyed_nodup : t.destroyed.Nodup
  destroyed_lt : ∀ p ∈ t.destroyed, p < t.created

/-- Every object that is alive is found under its key, and was made when no other had the key. -/
structure Complete (t : ObjectTable κ) : Prop where
  found : ∀ {p k}, t.key p = some k → t.table k = some p
  fresh : ∀ o ∈ t.openings, o.key ∉ o.others

theorem empty_inv : (empty : ObjectTable κ).Inv where
  key_of_table h := by cases h
  alive_iff p := by simp [empty]
  destroyed_nodup := List.nodup_nil
  destroyed_lt p h := by cases h

theorem empty_complete : (empty : ObjectTable κ).Complete where
  found h := by cases h
  fresh o h := by cases h

theorem Inv.mem_alive_iff {t : ObjectTable κ} (ht : t.Inv) {k : κ} :
    k ∈ t.alive ↔ ∃ p, t.key p = some k := by
  rw [alive, List.mem_filterMap]
  constructor
  · rintro ⟨p, -, hp⟩
    exact ⟨p, hp⟩
  · rintro ⟨p, hp⟩
    have hsome := (ht.alive_iff p).mp (by rw [hp]; rfl)
    exact ⟨p, List.mem_range.mpr hsome.1, hp⟩

theorem Inv.key_created {t : ObjectTable κ} (ht : t.Inv) : t.key t.created = none := by
  rw [← Option.not_isSome_iff_eq_none, ht.alive_iff]
  rintro ⟨hlt, -⟩
  exact absurd hlt (Nat.lt_irrefl _)

variable [DecidableEq κ]

def create (t : ObjectTable κ) (k : κ) : ObjectTable κ where
  table := Function.update t.table k (some t.created)
  key := Function.update t.key t.created (some k)
  created := t.created + 1
  destroyed := t.destroyed
  openings := t.openings ++ [⟨t.created, k, t.alive⟩]

def destroy (t : ObjectTable κ) (p : Nat) (k : κ) : ObjectTable κ :=
  { t with
    table := Function.update t.table k none
    key := Function.update t.key p none
    destroyed := t.destroyed ++ [p] }

def close (t : ObjectTable κ) (p : Nat) : ObjectTable κ :=
  match t.key p with
  | none => t
  | some k => if (t.table k).isSome then t.destroy p k else t

/-- Creating an object never makes the table lead to a dead one, whatever the key. -/
theorem create_inv {t : ObjectTable κ} (ht : t.Inv) (k : κ) : (t.create k).Inv where
  key_of_table {k' p} h := by
    simp only [create, Function.update_apply] at h ⊢
    split at h
    · subst k'
      rw [if_pos (Option.some.inj h).symm]
    · have hkey := ht.key_of_table h
      have hne : p ≠ t.created := by
        rintro rfl
        rw [ht.key_created] at hkey
        cases hkey
      rw [if_neg hne, hkey]
  alive_iff p := by
    simp only [create, Function.update_apply]
    split
    · subst p
      refine iff_of_true rfl ⟨Nat.lt_succ_self _, fun hmem => ?_⟩
      exact absurd (ht.destroyed_lt _ hmem) (Nat.lt_irrefl _)
    · rw [ht.alive_iff]
      constructor
      · rintro ⟨hlt, hmem⟩
        exact ⟨Nat.lt_succ_of_lt hlt, hmem⟩
      · rintro ⟨hlt, hmem⟩
        exact ⟨by omega, hmem⟩
  destroyed_nodup := ht.destroyed_nodup
  destroyed_lt p h := Nat.lt_succ_of_lt (ht.destroyed_lt p h)

theorem destroy_inv {t : ObjectTable κ} (ht : t.Inv) {p : Nat} {k : κ} (hp : t.key p = some k) :
    (t.destroy p k).Inv := by
  obtain ⟨hlt, hmem⟩ := (ht.alive_iff p).mp (by rw [hp]; rfl)
  refine ⟨?_, ?_, ?_, ?_⟩
  · intro k' q h
    simp only [destroy, Function.update_apply] at h ⊢
    split at h
    · cases h
    · rename_i hne
      have hkey := ht.key_of_table h
      -- an object under another key is another object
      rw [if_neg, hkey]
      rintro rfl
      exact hne (Option.some.inj (hkey.symm.trans hp))
  · intro q
    simp only [destroy, Function.update_apply, List.mem_append, List.mem_singleton]
    split
    · rename_i heq
      exact iff_of_false (by simp) fun h => h.2 (.inr heq)
    · rename_i hne
      rw [ht.alive_iff, or_iff_left hne]
  · show (t.destroyed ++ [p]).Nodup
    rw [List.nodup_append]
    refine ⟨ht.destroyed_nodup, List.nodup_singleton p, ?_⟩
    rintro a ha b hb rfl
    exact hmem (List.mem_singleton.mp hb ▸ ha)
  · intro q hq
    rcases List.mem_append.mp hq with hq | hq
    · exact ht.destroyed_lt q hq
    · exact List.mem_singleton.mp hq ▸ hlt

theorem close_inv {t : ObjectTable κ} (ht : t.Inv) (p : Nat) : (t.close p).Inv := by
  rw [close]
  cases hp : t.key p with
  | none => exact ht
  | some k =>
    simp only
    split
    · exact destroy_inv ht hp
    · exact ht

theorem destroy_complete {t : ObjectTable κ} (ht : t.Complete) {p : Nat} {k : κ}
    (hp : t.key p = some k) : (t.destroy p k).Complete where
  found {q k'} h := by
    simp only [destroy, Function.update_apply] at h ⊢
    split at h
    · cases h
    · rename_i hne
      rw [if_neg, ht.found h]
      -- two objects are never found under one key
      rintro rfl
      exact hne (Option.some.inj ((ht.found h).symm.trans (ht.found hp)))
  fresh := ht.fresh

theorem close_complete {t : ObjectTable κ} (ht : t.Complete) (p : Nat) : (t.close p).Complete := by
  rw [close]
  cases hp : t.key p with
  | none => exact ht
  | some k =>
    simp only
    split
    · exact destroy_complete ht hp
    · exact ht

theorem key_of_close {t : ObjectTable κ} {p q : Nat} {k : κ} (h : (t.close p).key q = some k) :
    t.key q = some k := by
  rw [close] at h
  split at h
  · exact h
  · split at h
    · simp only [destroy, Function.update_apply] at h
      split at h
      · cases h
      · exact h
    · exact h

@[simp] theorem close_openings (t : ObjectTable κ) (p : Nat) :
    (t.close p).openings = t.openings := by
  rw [close]
  cases t.key p with
  | none => rfl
  | some k =>
    simp only
    split <;> rfl

theorem create_complete {t : ObjectTable κ} (hinv : t.Inv) (ht : t.Complete) {k : κ}
    (hk : t.table k = none) : (t.create k).Complete where
  found {p k'} h := by
    simp only [create, Function.update_apply] at h ⊢
    split at h
    · subst p
      rw [if_pos (Option.some.inj h).symm]
    · have hfound := ht.found h
      rw [if_neg, hfound]
      rintro rfl
      rw [hk] at hfound
      cases hfound
  fresh o ho := by
    rcases List.mem_append.mp ho with ho | ho
    · exact ht.fresh o ho
    · rw [List.mem_singleton.mp ho]
      intro hmem
      obtain ⟨p, hp⟩ := hinv.mem_alive_iff.mp hmem
      rw [ht.found hp] at hk
      cases hk

/-- A key that the table has cannot be given to a new object: its opening shows it. -/
theorem table_eq_none_of_fresh {t : ObjectTable κ} (hinv : t.Inv) {k : κ}
    (h : ∀ o ∈ (t.create k).openings, o.key ∉ o.others) : t.table k = none := by
  cases hk : t.table k with
  | none => rfl
  | some p =>
    have halive : k ∈ t.alive := hinv.mem_alive_iff.mpr ⟨p, hinv.key_of_table hk⟩
    exact absurd halive (h ⟨t.created, k, t.alive⟩ (List.mem_append_right _ List.mem_cons_self))

end ObjectTable

end Reasoning
