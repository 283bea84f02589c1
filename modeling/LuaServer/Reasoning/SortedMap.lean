import Mathlib.Tactic.Common

/-!
# SortedMap — a map as the list of its entries in the order of the keys

`assign` sets the value of a key, `unassign` takes a key out.  Both keep the list sorted, so that
two maps are equal exactly when they have the same entries, and `lookup` finds the same values in
them.
-/

namespace Reasoning

variable {κ ν : Type*} [LT κ] [DecidableLT κ]

/-- `m[key] = value`. -/
def assign (key : κ) (value : ν) : List (κ × ν) → List (κ × ν)
  | [] => [(key, value)]
  | e :: m =>
    if key < e.1 then (key, value) :: e :: m
    else if e.1 < key then e :: assign key value m
    else (key, value) :: m

/-- The entry of the key, if there is one, goes. -/
def unassign [DecidableEq κ] (key : κ) (m : List (κ × ν)) : List (κ × ν) :=
  m.filter fun e => e.1 ≠ key

/-- Every key once, in ascending order. -/
abbrev SortedKeys (m : List (κ × ν)) : Prop := (m.map Prod.fst).Pairwise (· < ·)

omit [DecidableLT κ] in
theorem sortedKeys_cons_iff {e : κ × ν} {m : List (κ × ν)} :
    SortedKeys (e :: m) ↔ (∀ f ∈ m, e.1 < f.1) ∧ SortedKeys m := by
  simp [SortedKeys]

omit [DecidableLT κ] in
theorem unassign_sortedKeys [DecidableEq κ] {m : List (κ × ν)} (h : SortedKeys m) (key : κ) :
    SortedKeys (unassign key m) :=
  List.Pairwise.sublist (List.filter_sublist.map _) h

theorem mem_assign {key : κ} {value : ν} {m : List (κ × ν)} {e : κ × ν}
    (h : e ∈ assign key value m) : e = (key, value) ∨ e ∈ m := by
  induction m with
  | nil => exact .inl (List.mem_singleton.mp h)
  | cons f m ih =>
    rw [assign] at h
    split at h
    · exact List.mem_cons.mp h
    · split at h
      · rcases List.mem_cons.mp h with rfl | h
        · exact .inr List.mem_cons_self
        · exact (ih h).imp_right (List.mem_cons_of_mem f)
      · rcases List.mem_cons.mp h with rfl | h
        · exact .inl rfl
        · exact .inr (List.mem_cons_of_mem f h)

/-- The value assigned last is the one that stays. -/
@[simp] theorem assign_assign [Std.Irrefl (α := κ) (· < ·)] (key : κ) (value value' : ν)
    (m : List (κ × ν)) : assign key value (assign key value' m) = assign key value m := by
  have hirrefl : ¬ key < key := Std.Irrefl.irrefl key
  induction m with
  | nil => simp [assign, hirrefl]
  | cons e m ih =>
    by_cases hkey : key < e.1
    · simp [assign, hkey, hirrefl]
    · by_cases hkey' : e.1 < key
      · simp [assign, hkey, hkey', ih]
      · simp [assign, hkey, hkey', hirrefl]

section
variable [BEq κ] [LawfulBEq κ] [LE κ] [Std.IsLinearOrder κ] [Std.LawfulOrderLT κ]

omit [Std.IsLinearOrder κ] in
@[simp] theorem lookup_assign_self (key : κ) (value : ν) (m : List (κ × ν)) :
    (assign key value m).lookup key = some value := by
  induction m with
  | nil => exact List.lookup_cons_self
  | cons e m ih =>
    rw [assign]
    by_cases hkey : key < e.1
    · rw [if_pos hkey, List.lookup_cons_self]
    · rw [if_neg hkey]
      by_cases hkey' : e.1 < key
      · have hne : (key == e.1) = false := beq_false_of_ne (Std.ne_of_lt hkey').symm
        rw [if_pos hkey', List.lookup_cons, hne]
        exact ih
      · rw [if_neg hkey', List.lookup_cons_self]

theorem lookup_assign_of_ne {key key' : κ} (hne : key' ≠ key) (value : ν) (m : List (κ × ν)) :
    (assign key value m).lookup key' = m.lookup key' := by
  have hbeq : (key' == key) = false := beq_false_of_ne hne
  induction m with
  | nil => rw [assign, List.lookup_cons, hbeq]
  | cons e m ih =>
    rw [assign]
    by_cases hkey : key < e.1
    · rw [if_pos hkey, List.lookup_cons, hbeq]
    · rw [if_neg hkey]
      by_cases hkey' : e.1 < key
      · rw [if_pos hkey', List.lookup_cons, List.lookup_cons, ih]
      · have heq : key = e.1 := Std.le_antisymm (Std.not_lt.mp hkey') (Std.not_lt.mp hkey)
        rw [if_neg hkey', List.lookup_cons, List.lookup_cons, ← heq, hbeq]

/-- Of the values assigned one after another the last one of each key is found. -/
theorem lookup_assignAll (pairs m : List (κ × ν)) (key : κ) :
    (pairs.foldl (fun m e => assign e.1 e.2 m) m).lookup key =
      (pairs.reverse.lookup key).or (m.lookup key) := by
  induction pairs generalizing m with
  | nil => rfl
  | cons e pairs ih =>
    rw [List.foldl_cons, ih, List.reverse_cons, List.lookup_append, Option.or_assoc]
    apply congrArg
    by_cases hkey : key = e.1
    · subst hkey
      show _ = (List.lookup e.1 [(e.1, e.2)]).or _
      rw [lookup_assign_self, List.lookup_cons_self, Option.some_or]
    · have hbeq : (key == e.1) = false := beq_false_of_ne hkey
      rw [lookup_assign_of_ne hkey, List.lookup_cons, hbeq]
      rfl

end

section
variable [BEq κ] [LawfulBEq κ]

omit [LT κ] [DecidableLT κ]

theorem mem_of_lookup {key : κ} {value : ν} {m : List (κ × ν)}
    (h : m.lookup key = some value) : (key, value) ∈ m := by
  obtain ⟨l, r, rfl, -⟩ := List.lookup_eq_some_iff.mp h
  simp

@[simp] theorem lookup_unassign_self [DecidableEq κ] (key : κ) (m : List (κ × ν)) :
    (unassign key m).lookup key = none := by
  refine List.lookup_eq_none_iff.mpr fun e he => ?_
  have hne : e.1 ≠ key := of_decide_eq_true (List.mem_filter.mp he).2
  exact bne_iff_ne.mpr hne.symm

theorem lookup_unassign_of_ne [DecidableEq κ] {key key' : κ} (hne : key' ≠ key)
    (m : List (κ × ν)) : (unassign key m).lookup key' = m.lookup key' := by
  induction m with
  | nil => rfl
  | cons e m ih =>
    by_cases hkey : e.1 = key
    · have hbeq : (key' == e.1) = false := beq_false_of_ne (hkey ▸ hne)
      rw [unassign, List.filter_cons_of_neg (by simp [hkey]), List.lookup_cons, hbeq]
      exact ih
    · rw [unassign, List.filter_cons_of_pos (by simp [hkey]), List.lookup_cons, List.lookup_cons, ← ih]
      rfl

end

variable [LE κ] [Std.IsLinearOrder κ] [Std.LawfulOrderLT κ]

/-- A key above all others comes last. -/
theorem assign_of_lt {key : κ} {m : List (κ × ν)} (h : ∀ e ∈ m, e.1 < key) (value : ν) :
    assign key value m = m ++ [(key, value)] := by
  induction m with
  | nil => rfl
  | cons e m ih =>
    have hlt := h e List.mem_cons_self
    rw [assign, if_neg (Std.not_lt.mpr (Std.le_of_lt hlt)), if_pos hlt,
      ih fun f hf => h f (List.mem_cons_of_mem e hf), List.cons_append]

theorem assign_sortedKeys {m : List (κ × ν)} (h : SortedKeys m) (key : κ) (value : ν) :
    SortedKeys (assign key value m) := by
  induction m with
  | nil => simp [assign, SortedKeys]
  | cons e m ih =>
    obtain ⟨hlt, hm⟩ := sortedKeys_cons_iff.mp h
    rw [assign]
    by_cases hkey : key < e.1
    · rw [if_pos hkey]
      refine sortedKeys_cons_iff.mpr ⟨fun f hf => ?_, h⟩
      rcases List.mem_cons.mp hf with rfl | hf
      · exact hkey
      · exact Std.lt_trans hkey (hlt f hf)
    · rw [if_neg hkey]
      by_cases hkey' : e.1 < key
      · rw [if_pos hkey']
        refine sortedKeys_cons_iff.mpr ⟨fun f hf => ?_, ih hm⟩
        rcases mem_assign hf with rfl | hf
        · exact hkey'
        · exact hlt f hf
      · -- neither key is below the other, so the entry is replaced
        have heq : key = e.1 := Std.le_antisymm (Std.not_lt.mp hkey') (Std.not_lt.mp hkey)
        rw [if_neg hkey']
        exact sortedKeys_cons_iff.mpr ⟨fun f hf => heq ▸ hlt f hf, hm⟩

section
variable [BEq κ] [LawfulBEq κ]

omit [DecidableLT κ]

omit [Std.IsLinearOrder κ] in
theorem lookup_of_lt {key : κ} {m : List (κ × ν)} (h : ∀ e ∈ m, key < e.1) :
    m.lookup key = none :=
  List.lookup_eq_none_iff.mpr fun e he => bne_iff_ne.mpr (Std.ne_of_lt (h e he))

theorem head_le_of_lookup {e : κ × ν} {m : List (κ × ν)} {key : κ} {value : ν}
    (hm : SortedKeys (e :: m)) (h : (e :: m).lookup key = some value) : e.1 ≤ key := by
  rcases List.mem_cons.mp (mem_of_lookup h) with rfl | hmem
  · exact Std.le_refl _
  · exact Std.le_of_lt ((sortedKeys_cons_iff.mp hm).1 _ hmem)

/-- Sorted lists in which every key has the same value are equal. -/
theorem ext_lookup {m m' : List (κ × ν)} (hm : SortedKeys m) (hm' : SortedKeys m')
    (h : ∀ key, m.lookup key = m'.lookup key) : m = m' := by
  induction m generalizing m' with
  | nil =>
    cases m' with
    | nil => rfl
    | cons e' m' =>
      have hhead := h e'.1
      rw [List.lookup_nil, List.lookup_cons_self] at hhead
      cases hhead
  | cons e m ih =>
    cases m' with
    | nil =>
      have hhead := h e.1
      rw [List.lookup_nil, List.lookup_cons_self] at hhead
      cases hhead
    | cons e' m' =>
      obtain ⟨hlt, hsorted⟩ := sortedKeys_cons_iff.mp hm
      obtain ⟨hlt', hsorted'⟩ := sortedKeys_cons_iff.mp hm'
      have hkey : e.1 = e'.1 := Std.le_antisymm
        (head_le_of_lookup hm ((h e'.1).trans List.lookup_cons_self))
        (head_le_of_lookup hm' ((h e.1).symm.trans List.lookup_cons_self))
      have hvalue : some e.2 = some e'.2 := by
        have hhead := h e.1
        rwa [List.lookup_cons_self, hkey, List.lookup_cons_self] at hhead
      obtain rfl : e = e' := Prod.ext hkey (Option.some.inj hvalue)
      refine congrArg _ (ih hsorted hsorted' fun key => ?_)
      by_cases heq : key = e.1
      · rw [heq, lookup_of_lt hlt, lookup_of_lt hlt']
      · have hne : (key == e.1) = false := beq_false_of_ne heq
        have hrest := h key
        rwa [List.lookup_cons, List.lookup_cons, hne] at hrest

end

end Reasoning
