import LuaServer.Common.HeapOrder

/-!
# Timer — the timers over one heap

A timer is in the heap from `start` until it expires or is stopped; `m_time` is its deadline, and 0
stands for a timer that is not in the heap.  `update` runs the callbacks of up to ten timers whose
deadline has come.  What a callback does are further actions, taken before the callback returns, so
that the loops of the updates which are in progress are part of the state.

A timer has one node from its construction to its destruction, and both have the same address here.
-/

open Reasoning

namespace LuaServer

/-- What `XTime::iclock()` shows at an instant. -/
def iclock (time : Nat) : UInt32 := UInt32.ofNat time

theorem iclock_toNat (time : Nat) : (iclock time).toNat = time % 2 ^ 32 := UInt32.toNat_ofNat'

structure Timer where
  m_time : UInt32
  m_repeat : UInt32

/-- The heap under `gRootHeap` and the timers. -/
structure Timers where
  gRootHeap : Heap Nat
  -- what `user` in a node points to
  user : Nat → Option Timer
  -- the `i` of every update that is running a callback, the innermost first
  updates : List Nat

namespace Timers

/-! ## 1. The functions -/

def compare_fn (s : Timers) (a b : Nat) : Option Bool :=
  match s.user a, s.user b with
  | some timer_a, some timer_b => some (timer_a.m_time < timer_b.m_time)
  | _, _ => none

def setUser (s : Timers) (id : Nat) (timer : Option Timer) : Timers :=
  { s with user := Function.update s.user id timer }

def insert (s : Timers) (id : Nat) : Option Timers :=
  (s.gRootHeap.heap_insert s.compare_fn id).map fun heap => { s with gRootHeap := heap }

def remove (s : Timers) (id : Nat) : Option Timers :=
  (s.gRootHeap.heap_remove s.compare_fn id).map fun heap => { s with gRootHeap := heap }

/-- `Timer::init`, over any memory. -/
def init (node : Nat → HeapNode Nat) : Timers := ⟨⟨node, none, 0⟩, fun _ => none, []⟩

/-- `Timer::Timer`, at an address that is free. -/
def construct (s : Timers) (id : Nat) : Option Timers :=
  match s.user id with
  | none => some (s.setUser id (some ⟨0, 0⟩))
  | some _ => none

def start (s : Timers) (id : Nat) (timeout interval : UInt64) (time : Nat) : Option Timers :=
  match s.user id with
  | none => none
  | some _ =>
    (s.setUser id (some ⟨(timeout + (iclock time).toUInt64).toUInt32, interval.toUInt32⟩)).insert id

def stop (s : Timers) (id : Nat) : Option Timers :=
  match s.user id with
  | none => none
  | some timer =>
    if timer.m_time = 0 then some s
    else (s.setUser id (some { timer with m_time := 0 })).remove id

/-- `Timer::~Timer`; `user` is null when it calls `stop`. -/
def destroy (s : Timers) (id : Nat) : Option Timers :=
  match s.user id with
  | none => none
  | some timer =>
    let s := s.setUser id none
    if timer.m_time = 0 then some s else s.remove id

/-- One turn of the loop in `update`, up to the call of the callback: the timer whose callback
runs.  `time` and `time'` are when the clock is read. -/
def turn (s : Timers) (i time time' : Nat) : Option (Timers × Option Nat) :=
  match s.gRootHeap.min with
  | none => some (s, none)
  | some node =>
    match s.user node with
    | none => none
    | some timer =>
      if timer.m_time ≤ iclock time then
        match s.remove node with
        | none => none
        | some s =>
          (if 0 < timer.m_repeat then
            (s.setUser node (some ⟨timer.m_repeat + iclock time', timer.m_repeat⟩)).insert node
          else some (s.setUser node (some ⟨0, timer.m_repeat⟩))).map
            fun s => ({ s with updates := i :: s.updates }, some node)
      else some (s, none)

/-! ## 2. Runs -/

inductive Action
  | construct (id : Nat)
  | destroy (id : Nat)
  | start (id : Nat) (timeout interval : UInt64) (time : Nat)
  | stop (id : Nat)
  -- until the first callback is called, or the end
  | update (time time' : Nat)
  -- the callback that runs has returned, and its update goes on
  | callbackReturns (time time' : Nat)

/-- The state after an action, and the timer whose callback runs then. -/
def step (s : Timers) : Action → Option (Timers × Option Nat)
  | .construct id => (s.construct id).map fun s => (s, none)
  | .destroy id => (s.destroy id).map fun s => (s, none)
  | .start id timeout interval time => (s.start id timeout interval time).map fun s => (s, none)
  | .stop id => (s.stop id).map fun s => (s, none)
  | .update time time' => s.turn 0 time time'
  | .callbackReturns time time' =>
    match s.updates with
    | [] => none
    | i :: updates =>
      let s := { s with updates := updates }
      if i + 1 < 10 then s.turn (i + 1) time time' else some (s, none)

/-- The clock as the loop of an update reads it, if the action comes to that. -/
def reads (s : Timers) : Action → Option (Nat × Nat)
  | .construct _ => none
  | .destroy _ => none
  | .start _ _ _ _ => none
  | .stop _ => none
  | .update time time' => some (time, time')
  | .callbackReturns time time' =>
    match s.updates with
    | [] => none
    | i :: _ => if i + 1 < 10 then some (time, time') else none

/-- The program uses timers that it has constructed, and a callback returns when one runs. -/
def Possible (s : Timers) : Action → Prop
  | .construct id => s.user id = none
  | .destroy id => (s.user id).isSome
  | .start id _ _ _ => (s.user id).isSome
  | .stop id => (s.user id).isSome
  | .update _ _ => True
  | .callbackReturns _ _ => s.updates ≠ []

instance (s : Timers) : (a : Action) → Decidable (s.Possible a)
  | .construct id => decidable_of_iff ((s.user id).isNone = true) Option.isNone_iff_eq_none
  | .destroy id => inferInstanceAs (Decidable ((s.user id).isSome = true))
  | .start id _ _ _ => inferInstanceAs (Decidable ((s.user id).isSome = true))
  | .stop id => inferInstanceAs (Decidable ((s.user id).isSome = true))
  | .update _ _ => .isTrue trivial
  | .callbackReturns _ _ => inferInstanceAs (Decidable (s.updates ≠ []))

/-! ## 3. The functions on a right heap -/

/-- The order of the heap. -/
def key (s : Timers) (id : Nat) : Nat :=
  match s.user id with
  | none => 0
  | some timer => timer.m_time.toNat

section
variable {s : Timers} {S : Finset Nat} {id i time time' : Nat}

theorem setUser_self (timer : Option Timer) : (s.setUser id timer).user id = timer :=
  Function.update_self _ _ _

theorem setUser_of_ne {x : Nat} (hx : x ≠ id) (timer : Option Timer) :
    (s.setUser id timer).user x = s.user x :=
  Function.update_of_ne hx _ _

theorem key_setUser_of_ne {x : Nat} (hx : x ≠ id) (timer : Option Timer) :
    (s.setUser id timer).key x = s.key x := by
  rw [key, setUser_of_ne hx, key]

theorem compares (h : ∀ x ∈ S, (s.user x).isSome) : Heap.Compares s.compare_fn s.key S := by
  intro x hx y hy
  obtain ⟨timer_x, hux⟩ := Option.isSome_iff_exists.mp (h x hx)
  obtain ⟨timer_y, huy⟩ := Option.isSome_iff_exists.mp (h y hy)
  simp only [compare_fn, key, hux, huy, UInt32.lt_iff_toNat_lt]

theorem insert_holds (hh : s.gRootHeap.Holds s.key S) (hid : id ∉ S) (hsmall : S.card + 1 < 2 ^ 32)
    (halive : ∀ x ∈ Insert.insert id S, (s.user x).isSome) :
    ∃ heap, s.insert id = some { s with gRootHeap := heap } ∧
      heap.Holds s.key (Insert.insert id S) := by
  obtain ⟨heap, hinsert, hholds⟩ := Heap.heap_insert_holds hh hid hsmall (compares halive)
  exact ⟨heap, by rw [insert, hinsert]; rfl, hholds⟩

/-- The node that is removed is not compared any more. -/
theorem remove_holds {key : Nat → Nat} (hh : s.gRootHeap.Holds key S) (hid : id ∈ S)
    (halive : ∀ x ∈ S.erase id, (s.user x).isSome) (hkey : ∀ x ∈ S.erase id, s.key x = key x) :
    ∃ heap, s.remove id = some { s with gRootHeap := heap } ∧ heap.Holds s.key (S.erase id) := by
  have hless : Heap.Compares s.compare_fn key (S.erase id) := by
    intro x hx y hy
    rw [compares halive x hx y hy, hkey x hx, hkey y hy]
  obtain ⟨heap, hremove, hholds⟩ := Heap.heap_remove_holds hh hid hless
  exact ⟨heap, by rw [remove, hremove]; rfl, hholds.congr hkey⟩

end

end Timers

end LuaServer
