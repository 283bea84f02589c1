import LuaServer.Reasoning.Transition
import Mathlib.Data.List.Nodup
import Mathlib.Logic.Function.Basic

/-!
# ObjectPool — objects that are handed out and taken back

`createObject` hands out the first object of the pool, or a new one if the counter says that the
pool has none.  `reclaimObject` keeps an object for later, or deletes it if the pool has enough.
Every object has a flag that says whether it is handed out; taking an object back twice ends the
process.
-/

open Reasoning

namespace LuaServer

/-- The address of an object. -/
abbrev Ptr : Type := Nat

/-- The counter is an `int32`; it grows only while it is less than the `int32` `max_free`. -/
structure ObjectPool where
  max_free : Int
  obj_count_ : Int
  objects_ : List Ptr
  -- `isEnabledPoolObject_` of the objects that exist
  isEnabledPoolObject_ : Ptr → Option Bool

namespace ObjectPool

/-! ## 1. The operations -/

/-- The constructor, whose default is `0x200`. -/
def construct (maxfreecount : Int) : ObjectPool := ⟨maxfreecount, 0, [], fun _ => none⟩

def init (s : ObjectPool) (count : Int) : ObjectPool := { s with max_free := count }

def setEnabledPoolObject (s : ObjectPool) (obj : Ptr) (v : Bool) : ObjectPool :=
  { s with isEnabledPoolObject_ := Function.update s.isEnabledPoolObject_ obj (some v) }

def delete (s : ObjectPool) (obj : Ptr) : ObjectPool :=
  { s with isEnabledPoolObject_ := Function.update s.isEnabledPoolObject_ obj none }

def destroy (s : ObjectPool) : ObjectPool :=
  { s.objects_.foldl (fun s obj => (s.setEnabledPoolObject obj false).delete obj) s with
    obj_count_ := 0
    objects_ := [] }

/-- The object that is handed out; a new one gets an address at which there is none.  The front of
an empty list is undefined. -/
def createObject (s : ObjectPool) (new : Ptr) : Option (Ptr × ObjectPool) :=
  if 0 < s.obj_count_ then
    match s.objects_ with
    | [] => none
    | t :: rest =>
      some (t, { s with objects_ := rest, obj_count_ := s.obj_count_ - 1 }.setEnabledPoolObject t
        true)
  else if s.isEnabledPoolObject_ new = none then some (new, s.setEnabledPoolObject new true)
  else none

/-- What a call of `reclaimObject` comes to. -/
inductive Reclaim
  | done (s : ObjectPool)
  -- `XAssert` has ended the process
  | asserted
  -- the object does not exist
  | undefined

def reclaimObject (s : ObjectPool) (obj : Option Ptr) : Reclaim :=
  match obj with
  | none => .done s
  | some obj =>
    match s.isEnabledPoolObject_ obj with
    | none => .undefined
    | some false => .asserted
    | some true =>
      let s := s.setEnabledPoolObject obj false
      if s.max_free ≤ s.obj_count_ then .done (s.delete obj)
      else .done { s with objects_ := s.objects_ ++ [obj], obj_count_ := s.obj_count_ + 1 }

theorem setEnabledPoolObject_self (s : ObjectPool) (obj : Ptr) (v : Bool) :
    (s.setEnabledPoolObject obj v).isEnabledPoolObject_ obj = some v :=
  Function.update_self _ _ _

theorem setEnabledPoolObject_of_ne (s : ObjectPool) {obj p : Ptr} (v : Bool) (h : p ≠ obj) :
    (s.setEnabledPoolObject obj v).isEnabledPoolObject_ p = s.isEnabledPoolObject_ p :=
  Function.update_of_ne h _ _

theorem delete_self (s : ObjectPool) (obj : Ptr) :
    (s.delete obj).isEnabledPoolObject_ obj = none :=
  Function.update_self _ _ _

theorem delete_of_ne (s : ObjectPool) {obj p : Ptr} (h : p ≠ obj) :
    (s.delete obj).isEnabledPoolObject_ p = s.isEnabledPoolObject_ p :=
  Function.update_of_ne h _ _

theorem destroy_isEnabled (s : ObjectPool) (p : Ptr) :
    s.destroy.isEnabledPoolObject_ p =
      if p ∈ s.objects_ then none else s.isEnabledPoolObject_ p := by
  unfold destroy
  generalize s.objects_ = objs
  induction objs generalizing s with
  | nil => rfl
  | cons obj objs ih =>
    rw [List.foldl_cons, ih]
    by_cases hmem : p ∈ objs
    · rw [if_pos hmem, if_pos (List.mem_cons_of_mem obj hmem)]
    · rw [if_neg hmem]
      by_cases heq : p = obj
      · rw [if_pos (heq ▸ List.mem_cons_self), heq, delete_self]
      · rw [if_neg (by simp [heq, hmem]), delete_of_ne _ heq, setEnabledPoolObject_of_ne _ _ heq]

end ObjectPool

/-! ## 2. Runs -/

inductive ObjectPoolAction
  | init (count : Int)
  | destroy
  | createObject (new : Ptr)
  | reclaimObject (obj : Option Ptr)

/-- A pool, the objects that have been handed out and not been taken back, and whether `XAssert` has
ended the process. -/
structure ObjectPoolUse where
  pool : ObjectPool
  handedOut : List Ptr
  asserted : Bool

namespace ObjectPoolUse

def start (maxfreecount : Int) : ObjectPoolUse := ⟨.construct maxfreecount, [], false⟩

/-- Objects that exist are taken back, also those that are in the pool already. -/
def step (u : ObjectPoolUse) (a : ObjectPoolAction) : Option ObjectPoolUse :=
  if u.asserted then none
  else
    match a with
    | .init count => some { u with pool := u.pool.init count }
    | .destroy => some { u with pool := u.pool.destroy }
    | .createObject new =>
      (u.pool.createObject new).map fun r =>
        { u with pool := r.2, handedOut := u.handedOut ++ [r.1] }
    | .reclaimObject obj =>
      match u.pool.reclaimObject obj with
      | .done s => some { u with pool := s, handedOut := u.handedOut.filter (some · ≠ obj) }
      | .asserted => some { u with asserted := true }
      | .undefined => none

/-- The counter counts the pool, no object is in it twice, and the flags say which objects are in
the pool and which are handed out. -/
structure Owned (u : ObjectPoolUse) : Prop where
  count_eq : u.pool.obj_count_ = u.pool.objects_.length
  nodup : u.pool.objects_.Nodup
  pooled : ∀ obj ∈ u.pool.objects_, u.pool.isEnabledPoolObject_ obj = some false
  handedOut : ∀ obj ∈ u.handedOut,
    u.pool.isEnabledPoolObject_ obj = some true ∧ obj ∉ u.pool.objects_

variable {u v : ObjectPoolUse}

theorem start_owned (maxfreecount : Int) : (start maxfreecount).Owned where
  count_eq := rfl
  nodup := List.nodup_nil
  pooled obj h := by cases h
  handedOut obj h := by cases h

/-! ## 3. One operation -/

theorem Owned.not_handedOut {p : Ptr} (hu : u.Owned)
    (h : u.pool.isEnabledPoolObject_ p ≠ some true) : p ∉ u.handedOut :=
  fun hmem => h (hu.handedOut p hmem).1

theorem Owned.not_pooled {p : Ptr} (hu : u.Owned)
    (h : u.pool.isEnabledPoolObject_ p ≠ some false) : p ∉ u.pool.objects_ :=
  fun hmem => h (hu.pooled p hmem)

theorem Owned.destroy (hu : u.Owned) : Owned { u with pool := u.pool.destroy } where
  count_eq := rfl
  nodup := List.nodup_nil
  pooled obj h := by cases h
  handedOut obj hmem := by
    obtain ⟨htrue, hout⟩ := hu.handedOut obj hmem
    refine ⟨?_, List.not_mem_nil⟩
    show u.pool.destroy.isEnabledPoolObject_ obj = some true
    rw [ObjectPool.destroy_isEnabled, if_neg hout, htrue]

/-- The object gets its flag and leaves the pool, if it was there. -/
theorem Owned.handOut (hu : u.Owned) {obj : Ptr} (hfree : obj ∉ u.handedOut) {objs : List Ptr}
    {count : Int} (hcount : count = objs.length) (hsub : objs.Sublist u.pool.objects_)
    (hout : obj ∉ objs) :
    Owned { u with
      pool := { u.pool with objects_ := objs, obj_count_ := count }.setEnabledPoolObject obj true
      handedOut := u.handedOut ++ [obj] } where
  count_eq := hcount
  nodup := hu.nodup.sublist hsub
  pooled p hmem := by
    have hne : p ≠ obj := fun heq => hout (heq ▸ hmem)
    rw [ObjectPool.setEnabledPoolObject_of_ne _ _ hne]
    exact hu.pooled p (hsub.subset hmem)
  handedOut p hmem := by
    show ObjectPool.isEnabledPoolObject_ _ p = some true ∧ p ∉ objs
    rcases List.mem_append.mp hmem with hmem | hmem
    · obtain ⟨htrue, hp⟩ := hu.handedOut p hmem
      have hne : p ≠ obj := fun heq => hfree (heq ▸ hmem)
      rw [ObjectPool.setEnabledPoolObject_of_ne _ _ hne]
      exact ⟨htrue, fun h => hp (hsub.subset h)⟩
    · obtain rfl := List.mem_singleton.mp hmem
      exact ⟨ObjectPool.setEnabledPoolObject_self _ _ _, hout⟩

/-- An object that is handed out was not handed out before. -/
theorem Owned.createObject (hu : u.Owned) {new obj : Ptr} {s : ObjectPool}
    (h : u.pool.createObject new = some (obj, s)) :
    obj ∉ u.handedOut ∧ Owned { u with pool := s, handedOut := u.handedOut ++ [obj] } := by
  have hcount := hu.count_eq
  unfold ObjectPool.createObject at h
  split at h
  · cases hobjs : u.pool.objects_ with
    | nil =>
      rw [hobjs] at h
      cases h
    | cons t rest =>
      rw [hobjs] at h hcount
      cases h
      have hfalse := hu.pooled obj (hobjs ▸ List.mem_cons_self)
      have hfree : obj ∉ u.handedOut := hu.not_handedOut (by rw [hfalse]; decide)
      have hnodup := hu.nodup
      rw [hobjs, List.nodup_cons] at hnodup
      rw [List.length_cons] at hcount
      exact ⟨hfree, hu.handOut hfree (by omega) (hobjs ▸ List.sublist_cons_self obj rest) hnodup.1⟩
  · obtain ⟨hnew, h⟩ := Option.ite_none_right_eq_some.mp h
    cases h
    have hfree : new ∉ u.handedOut := hu.not_handedOut (by rw [hnew]; decide)
    exact ⟨hfree, hu.handOut hfree hcount (List.Sublist.refl _)
      (hu.not_pooled (by rw [hnew]; decide))⟩

/-- There is always an object to hand out. -/
theorem Owned.exists_createObject (hu : u.Owned) {new : Ptr}
    (hnew : u.pool.isEnabledPoolObject_ new = none) :
    ∃ obj s, u.pool.createObject new = some (obj, s) := by
  unfold ObjectPool.createObject
  by_cases hpos : 0 < u.pool.obj_count_
  · rw [if_pos hpos]
    cases hobjs : u.pool.objects_ with
    | nil =>
      have hcount := hu.count_eq
      rw [hobjs, List.length_nil] at hcount
      omega
    | cons t rest => exact ⟨_, _, rfl⟩
  · rw [if_neg hpos, if_pos hnew]
    exact ⟨_, _, rfl⟩

/-- The object loses its flag, and what becomes of it does not touch the others. -/
theorem Owned.takeBack (hu : u.Owned) {obj : Ptr} {s : ObjectPool}
    (hkeep : ∀ p, p ≠ obj → s.isEnabledPoolObject_ p = u.pool.isEnabledPoolObject_ p)
    (hcount : s.obj_count_ = s.objects_.length) (hnodup : s.objects_.Nodup)
    (hobjs : ∀ p ∈ s.objects_, p ∈ u.pool.objects_ ∧ p ≠ obj ∨
      p = obj ∧ s.isEnabledPoolObject_ obj = some false) :
    Owned { u with pool := s, handedOut := u.handedOut.filter (some · ≠ some obj) } where
  count_eq := hcount
  nodup := hnodup
  pooled p hmem := by
    rcases hobjs p hmem with ⟨hold, hne⟩ | ⟨rfl, hfalse⟩
    · show s.isEnabledPoolObject_ p = some false
      rw [hkeep p hne, hu.pooled p hold]
    · exact hfalse
  handedOut p hmem := by
    obtain ⟨hmem, hdec⟩ := List.mem_filter.mp hmem
    have hne : p ≠ obj := fun heq => of_decide_eq_true hdec (congrArg some heq)
    obtain ⟨htrue, hout⟩ := hu.handedOut p hmem
    refine ⟨(hkeep p hne).trans htrue, fun hp => ?_⟩
    rcases hobjs p hp with ⟨hold, -⟩ | ⟨heq, -⟩
    · exact hout hold
    · exact hne heq

/-- An object that is taken back goes to the end of the pool, or is deleted. -/
theorem Owned.reclaimObject (hu : u.Owned) {obj : Option Ptr} {s : ObjectPool}
    (h : u.pool.reclaimObject obj = .done s) :
    Owned { u with pool := s, handedOut := u.handedOut.filter (some · ≠ obj) } := by
  cases obj with
  | none =>
    cases h
    have hall : u.handedOut.filter (fun p => decide (some p ≠ none)) = u.handedOut :=
      List.filter_eq_self.mpr fun p _ => rfl
    rw [hall]
    exact hu
  | some obj =>
    unfold ObjectPool.reclaimObject at h
    cases hflag : u.pool.isEnabledPoolObject_ obj with
    | none =>
      simp only [hflag] at h
      cases h
    | some flag =>
      cases flag with
      | false =>
        simp only [hflag] at h
        cases h
      | true =>
        have hout : obj ∉ u.pool.objects_ := hu.not_pooled (by rw [hflag]; decide)
        have hold : ∀ p ∈ u.pool.objects_, p ∈ u.pool.objects_ ∧ p ≠ obj :=
          fun p hmem => ⟨hmem, fun heq => hout (heq ▸ hmem)⟩
        simp only [hflag] at h
        split at h
        · cases h
          refine hu.takeBack ?_ hu.count_eq hu.nodup fun p hmem => .inl (hold p hmem)
          intro p hne
          rw [ObjectPool.delete_of_ne _ hne, ObjectPool.setEnabledPoolObject_of_ne _ _ hne]
        · cases h
          apply hu.takeBack
          · intro p hne
            exact ObjectPool.setEnabledPoolObject_of_ne _ _ hne
          · show u.pool.obj_count_ + 1 = ((u.pool.objects_ ++ [obj]).length : Int)
            rw [hu.count_eq, List.length_append, List.length_singleton]
            rfl
          · show (u.pool.objects_ ++ [obj]).Nodup
            rw [List.nodup_append]
            refine ⟨hu.nodup, List.nodup_singleton obj, ?_⟩
            rintro a ha b hb rfl
            exact hout (List.mem_singleton.mp hb ▸ ha)
          · intro p hmem
            rcases List.mem_append.mp hmem with hmem | hmem
            · exact .inl (hold p hmem)
            · exact .inr ⟨List.mem_singleton.mp hmem, ObjectPool.setEnabledPoolObject_self _ _ _⟩

/-! ## 4. Every run -/

theorem step_owned {a : ObjectPoolAction} (hu : u.Owned) (h : step u a = some v) : v.Owned := by
  unfold step at h
  split at h
  · cases h
  cases a with
  | init count =>
    cases h
    exact ⟨hu.count_eq, hu.nodup, hu.pooled, hu.handedOut⟩
  | destroy =>
    cases h
    exact hu.destroy
  | createObject new =>
    obtain ⟨r, hr, rfl⟩ := Option.map_eq_some_iff.mp h
    exact (hu.createObject hr).2
  | reclaimObject obj =>
    simp only at h
    split at h
    · cases h
      exact hu.reclaimObject ‹_›
    · cases h
      exact ⟨hu.count_eq, hu.nodup, hu.pooled, hu.handedOut⟩
    · cases h

/-- Whatever is done with a pool, its counter, its list and the flags agree; there is always an
object to hand out, and it is none that is in use. -/
theorem owned_of_run {maxfreecount : Int} {actions : List ObjectPoolAction}
    (hrun : run step (start maxfreecount) actions = some u) :
    u.Owned ∧
      (∀ new, u.pool.isEnabledPoolObject_ new = none →
        ∃ obj s, u.pool.createObject new = some (obj, s)) ∧
      ∀ new obj s, u.pool.createObject new = some (obj, s) → obj ∉ u.handedOut := by
  have hu : u.Owned :=
    Reachable.invariant (fun _ _ _ => step_owned) ⟨actions, hrun⟩ (start_owned maxfreecount)
  exact ⟨hu, fun _ hnew => hu.exists_createObject hnew, fun _ _ _ h => (hu.createObject h).1⟩

/-- Two objects are handed out, and one of them is taken back twice. -/
theorem owned_of_run_twice :
    ∃ u, run step (start 512) [.createObject 0, .createObject 1, .reclaimObject (some 0),
        .reclaimObject (some 0)] = some u ∧
      u.Owned ∧
        (∀ new, u.pool.isEnabledPoolObject_ new = none →
          ∃ obj s, u.pool.createObject new = some (obj, s)) ∧
        ∀ new obj s, u.pool.createObject new = some (obj, s) → obj ∉ u.handedOut :=
  ⟨_, rfl, @owned_of_run _ 512 [.createObject 0, .createObject 1, .reclaimObject (some 0),
    .reclaimObject (some 0)] rfl⟩

end ObjectPoolUse

end LuaServer
