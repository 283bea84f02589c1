import LuaServer.Common.Timer
import LuaServer.Reasoning.Transition

/-!
# TimerSet — the heap and the active timers

A timer is active from `start` until it is stopped or destroyed, or expires and is not repeated.
`Right` says that the heap holds the active timers and that the others are known by their `m_time`.
Every function keeps it, unless a timer that is active is started, one whose deadline is 0 is
stopped or destroyed, or there are too many of them.
-/

open Reasoning

namespace LuaServer.Timers

variable {s : Timers} {S : Finset Nat} {id i time time' : Nat}

/-! ## 1. Single functions -/

structure Right (s : Timers) (S : Finset Nat) : Prop where
  heap : s.gRootHeap.Holds s.key S
  alive : ∀ id ∈ S, (s.user id).isSome
  idle : ∀ id timer, s.user id = some timer → id ∉ S → timer.m_time = 0

theorem key_eq_zero {timer : Timer} (hid : s.user id = some timer) :
    s.key id = 0 ↔ timer.m_time = 0 := by
  rw [key, hid]
  exact UInt32.toNat_inj (b := 0)

theorem setUser_user : s.setUser id (s.user id) = s := by
  simp only [setUser, Function.update_eq_self]

/-- A timer that is not in the heap any more. -/
theorem Right.unlinked (hr : Right s S) {heap : Heap Nat} (hheap : heap.Holds s.key (S.erase id))
    {o : Option Timer} (ho : ∀ timer, o = some timer → timer.m_time = 0) :
    Right { s.setUser id o with gRootHeap := heap } (S.erase id) where
  heap := hheap.congr fun _ hx => key_setUser_of_ne (Finset.ne_of_mem_erase hx) o
  alive x hx := by
    have hsame := setUser_of_ne (s := s) (Finset.ne_of_mem_erase hx) o
    exact hsame ▸ hr.alive x (Finset.mem_of_mem_erase hx)
  idle x timer hx hout := by
    by_cases hid : x = id
    · subst hid
      exact ho timer ((setUser_self o).symm.trans hx)
    · have hsame := setUser_of_ne (s := s) hid o
      exact hr.idle x timer (hsame.symm.trans hx) fun hin => hout (Finset.mem_erase.mpr ⟨hid, hin⟩)

/-- The same when it was not in the heap. -/
theorem Right.idled (hr : Right s S) (hid : id ∉ S) {o : Option Timer}
    (ho : ∀ timer, o = some timer → timer.m_time = 0) : Right (s.setUser id o) S := by
  have herase := Finset.erase_eq_of_notMem hid
  have hheap : s.gRootHeap.Holds s.key (S.erase id) := herase.symm ▸ hr.heap
  have hright := hr.unlinked hheap ho
  rwa [herase] at hright

theorem Right.linked {o : Option Timer} (hr : Right (s.setUser id o) S) (hid : id ∉ S)
    (hsmall : S.card + 1 < 2 ^ 32) (timer : Timer) :
    ∃ heap, (s.setUser id (some timer)).insert id =
        some { s.setUser id (some timer) with gRootHeap := heap } ∧
      Right { s.setUser id (some timer) with gRootHeap := heap } (Insert.insert id S) := by
  have hne : ∀ x ∈ S, x ≠ id := fun x hx heq => hid (heq ▸ hx)
  have hsame : ∀ x, x ≠ id → (s.setUser id (some timer)).user x = (s.setUser id o).user x :=
    fun x hx => (setUser_of_ne hx _).trans (setUser_of_ne hx _).symm
  have hheap : s.gRootHeap.Holds (s.setUser id (some timer)).key S :=
    hr.heap.congr fun x hx => by rw [key, hsame x (hne x hx), key]
  have halive : ∀ x ∈ Insert.insert id S, ((s.setUser id (some timer)).user x).isSome := by
    intro x hx
    rcases Finset.mem_insert.mp hx with rfl | hx
    · rw [setUser_self]
      rfl
    · rw [hsame x (hne x hx)]
      exact hr.alive x hx
  obtain ⟨heap, hinsert, hholds⟩ := insert_holds hheap hid hsmall halive
  refine ⟨heap, hinsert, hholds, halive, fun x timer' hx hout => ?_⟩
  have hx' := Finset.mem_insert.not.mp hout
  rw [not_or] at hx'
  exact hr.idle x timer' ((hsame x hx'.1).symm.trans hx) hx'.2

theorem start_right (hr : Right s S) (halive : (s.user id).isSome) (hid : id ∉ S)
    (hsmall : S.card + 1 < 2 ^ 32) (timeout interval : UInt64) (time : Nat) :
    ∃ t, s.start id timeout interval time = some t ∧ Right t (Insert.insert id S) ∧
      t.user = Function.update s.user id
        (some ⟨(timeout + (iclock time).toUInt64).toUInt32, interval.toUInt32⟩) := by
  obtain ⟨timer, huser⟩ := Option.isSome_iff_exists.mp halive
  have hsame : s.setUser id (s.user id) = s := setUser_user
  rw [← hsame] at hr
  obtain ⟨heap, hinsert, hright⟩ := hr.linked hid hsmall
    ⟨(timeout + (iclock time).toUInt64).toUInt32, interval.toUInt32⟩
  exact ⟨_, by rw [start, huser]; exact hinsert, hright, rfl⟩

/-- What `stop` and the destructor do with a timer in the heap. -/
theorem Right.removed (hr : Right s S) (hid : id ∈ S) {o : Option Timer}
    (ho : ∀ timer, o = some timer → timer.m_time = 0) :
    ∃ heap, (s.setUser id o).remove id = some { s.setUser id o with gRootHeap := heap } ∧
      Right { s.setUser id o with gRootHeap := heap } (S.erase id) := by
  have hne : ∀ x ∈ S.erase id, x ≠ id := fun x hx => Finset.ne_of_mem_erase hx
  obtain ⟨heap, hremove, hholds⟩ := remove_holds (s := s.setUser id o) hr.heap hid
    (fun x hx => by rw [setUser_of_ne (hne x hx)]; exact hr.alive x (Finset.mem_of_mem_erase hx))
    fun x hx => key_setUser_of_ne (hne x hx) o
  have hkey : ∀ x ∈ S.erase id, s.key x = (s.setUser id o).key x :=
    fun x hx => (key_setUser_of_ne (hne x hx) o).symm
  exact ⟨heap, hremove, hr.unlinked (hholds.congr hkey) ho⟩

theorem stop_right (hr : Right s S) (halive : (s.user id).isSome) (hkey : id ∈ S → s.key id ≠ 0) :
    ∃ t, s.stop id = some t ∧ Right t (S.erase id) ∧ ∀ x, x ≠ id → t.user x = s.user x := by
  obtain ⟨timer, huser⟩ := Option.isSome_iff_exists.mp halive
  rw [stop, huser]
  by_cases hid : id ∈ S
  · obtain ⟨heap, hremove, hright⟩ := hr.removed hid (o := some { timer with m_time := 0 })
      (by rintro _ ⟨⟩; rfl)
    exact ⟨_, by simp only [if_neg ((key_eq_zero huser).not.mp (hkey hid)), hremove], hright,
      fun x hx => setUser_of_ne hx _⟩
  · rw [Finset.erase_eq_of_notMem hid]
    exact ⟨s, by simp only [if_pos (hr.idle id timer huser hid)], hr, fun _ _ => rfl⟩

theorem destroy_right (hr : Right s S) (halive : (s.user id).isSome)
    (hkey : id ∈ S → s.key id ≠ 0) :
    ∃ t, s.destroy id = some t ∧ Right t (S.erase id) ∧ ∀ x, x ≠ id → t.user x = s.user x := by
  obtain ⟨timer, huser⟩ := Option.isSome_iff_exists.mp halive
  rw [destroy, huser]
  by_cases hid : id ∈ S
  · obtain ⟨heap, hremove, hright⟩ := hr.removed hid (o := none) nofun
    exact ⟨_, by simp only [if_neg ((key_eq_zero huser).not.mp (hkey hid)), hremove], hright,
      fun x hx => setUser_of_ne hx _⟩
  · rw [Finset.erase_eq_of_notMem hid]
    exact ⟨s.setUser id none, by simp only [if_pos (hr.idle id timer huser hid)],
      hr.idled hid nofun, fun x hx => setUser_of_ne hx _⟩

theorem stop_of_key_eq_zero (halive : (s.user id).isSome) (hkey : s.key id = 0) :
    s.stop id = some s := by
  obtain ⟨timer, huser⟩ := Option.isSome_iff_exists.mp halive
  simp only [stop, huser, if_pos ((key_eq_zero huser).mp hkey)]

theorem destroy_of_key_eq_zero (halive : (s.user id).isSome) (hkey : s.key id = 0) :
    s.destroy id = some (s.setUser id none) := by
  obtain ⟨timer, huser⟩ := Option.isSome_iff_exists.mp halive
  simp only [destroy, huser, if_pos ((key_eq_zero huser).mp hkey)]

theorem start_nelts {t : Timers} {timeout interval : UInt64}
    (h : s.start id timeout interval time = some t) :
    t.gRootHeap.nelts = (s.gRootHeap.nelts + 1) % 2 ^ 32 := by
  rw [start] at h
  split at h
  · cases h
  · obtain ⟨heap, hinsert, rfl⟩ := Option.map_eq_some_iff.mp h
    exact Heap.heap_insert_nelts hinsert

theorem construct_right (hr : Right s S) (hfree : s.user id = none) :
    s.construct id = some (s.setUser id (some ⟨0, 0⟩)) ∧
      Right (s.setUser id (some ⟨0, 0⟩)) S ∧ id ∉ S := by
  have hid : id ∉ S := by
    intro hin
    have halive := hr.alive id hin
    rw [hfree] at halive
    exact Bool.false_ne_true halive
  refine ⟨by rw [construct, hfree], hr.idled hid ?_, hid⟩
  rintro _ ⟨⟩
  rfl

/-- What the loop of an update has done when it calls a callback or ends. -/
inductive Turned (s : Timers) (S : Finset Nat) : Option (Nat × Nat) → Timers → Option Nat → Prop
  | rests {o : Option (Nat × Nat)} {t : Timers} (right : Right t S) (user : t.user = s.user) :
    Turned s S o t none
  | runs {time time' : Nat} {t : Timers} {id : Nat} {timer : Timer} (root : s.gRootHeap.min = some id)
    (mem : id ∈ S) (old : s.user id = some timer) (due : timer.m_time ≤ iclock time)
    (right : Right t (if 0 < timer.m_repeat then S else S.erase id))
    (user : t.user = Function.update s.user id (some
      ⟨if 0 < timer.m_repeat then timer.m_repeat + iclock time' else 0, timer.m_repeat⟩)) :
    Turned s S (some (time, time')) t (some id)

theorem turn_right (hr : Right s S) (i time time' : Nat) :
    ∃ t ran, s.turn i time time' = some (t, ran) ∧ Turned s S (some (time, time')) t ran := by
  rcases hr.heap.min with ⟨hmin, -⟩ | ⟨id, hid, hmin, -⟩
  · exact ⟨s, none, by rw [turn, hmin], .rests hr rfl⟩
  obtain ⟨timer, huser⟩ := Option.isSome_iff_exists.mp (hr.alive id hid)
  by_cases hdue : timer.m_time ≤ iclock time
  · obtain ⟨heap, hremove, hholds⟩ := remove_holds hr.heap hid
      (fun x hx => hr.alive x (Finset.mem_of_mem_erase hx)) fun _ _ => rfl
    have hout := hr.unlinked hholds (o := some ⟨0, timer.m_repeat⟩) (by rintro _ ⟨⟩; rfl)
    by_cases hrepeat : 0 < timer.m_repeat
    · have hcard : (S.erase id).card + 1 < 2 ^ 32 := by
        rw [Finset.card_erase_add_one hid]
        exact hr.heap.nelts.2
      obtain ⟨heap', hinsert, hright⟩ := Right.linked (s := { s with gRootHeap := heap }) hout
        (Finset.notMem_erase id S) hcard ⟨timer.m_repeat + iclock time', timer.m_repeat⟩
      rw [Finset.insert_erase hid] at hright
      refine ⟨⟨heap', Function.update s.user id
          (some ⟨timer.m_repeat + iclock time', timer.m_repeat⟩), i :: s.updates⟩,
        some id, ?_, .runs hmin hid huser hdue ?_ ?_⟩
      · simp only [turn, hmin, huser, if_pos hdue, hremove, if_pos hrepeat, hinsert]
        rfl
      · rw [if_pos hrepeat]
        exact ⟨hright.heap, hright.alive, hright.idle⟩
      · rw [if_pos hrepeat]
    · refine ⟨⟨heap, Function.update s.user id (some ⟨0, timer.m_repeat⟩), i :: s.updates⟩,
        some id, ?_, .runs hmin hid huser hdue ?_ ?_⟩
      · simp only [turn, hmin, huser, if_pos hdue, hremove, if_neg hrepeat]
        rfl
      · rw [if_neg hrepeat]
        exact ⟨hout.heap, hout.alive, hout.idle⟩
      · rw [if_neg hrepeat]
  · exact ⟨s, none, by simp only [turn, hmin, huser, if_neg hdue], .rests hr rfl⟩

theorem callbackReturns_right (hr : Right s S) (hrun : s.updates ≠ []) (time time' : Nat) :
    ∃ t ran, s.step (.callbackReturns time time') = some (t, ran) ∧
      Turned s S (s.reads (.callbackReturns time time')) t ran := by
  obtain ⟨i, updates, hupdates⟩ := List.exists_cons_of_ne_nil hrun
  have hr' : Right { s with updates := updates } S := ⟨hr.heap, hr.alive, hr.idle⟩
  simp only [step, reads, hupdates]
  split
  · obtain ⟨t, ran, hturn, hturned⟩ := turn_right hr' (i + 1) time time'
    refine ⟨t, ran, hturn, ?_⟩
    cases hturned with
    | rests right user => exact .rests right user
    | runs root mem old due right user => exact .runs root mem old due right user
  · exact ⟨_, none, rfl, .rests hr' rfl⟩

/-! ## 2. Runs -/

def repeated (s : Timers) (id : Nat) : Bool :=
  match s.user id with
  | none => false
  | some timer => 0 < timer.m_repeat

def activeAfterTurn (s : Timers) (active : Finset Nat) : Option Nat → Finset Nat
  | none => active
  | some id => if s.repeated id then active else active.erase id

/-- The active timers after an action that runs the callback of `ran`. -/
def activeAfter (s : Timers) (active : Finset Nat) (ran : Option Nat) : Action → Finset Nat
  | .construct _ => active
  | .destroy id => active.erase id
  | .start id _ _ _ => Insert.insert id active
  | .stop id => active.erase id
  | .update _ _ => s.activeAfterTurn active ran
  | .callbackReturns _ _ => s.activeAfterTurn active ran

/-- What keeps the heap right. -/
def Proper (s : Timers) (active : Finset Nat) : Action → Prop
  | .start id _ _ _ => id ∉ active ∧ active.card + 1 < 2 ^ 32
  | .stop id => id ∈ active → s.key id ≠ 0
  | .destroy id => id ∈ active → s.key id ≠ 0
  | .construct _ => True
  | .update _ _ => True
  | .callbackReturns _ _ => True

instance (s : Timers) (active : Finset Nat) : (a : Action) → Decidable (Proper s active a)
  | .construct _ => .isTrue trivial
  | .destroy id => inferInstanceAs (Decidable (id ∈ active → s.key id ≠ 0))
  | .start id _ _ _ => inferInstanceAs (Decidable (id ∉ active ∧ active.card + 1 < 2 ^ 32))
  | .stop id => inferInstanceAs (Decidable (id ∈ active → s.key id ≠ 0))
  | .update _ _ => .isTrue trivial
  | .callbackReturns _ _ => .isTrue trivial

theorem mem_activeAfterTurn {ran : Option Nat} {x : Nat} (hx : x ∈ s.activeAfterTurn S ran) :
    x ∈ S ∧ (ran = some x → s.repeated x) := by
  cases ran with
  | none => exact ⟨hx, nofun⟩
  | some id =>
    rw [activeAfterTurn] at hx
    split at hx
    · rename_i hrepeated
      exact ⟨hx, fun heq => Option.some.inj heq ▸ hrepeated⟩
    · exact ⟨Finset.mem_of_mem_erase hx,
        fun heq => absurd (Option.some.inj heq).symm (Finset.ne_of_mem_erase hx)⟩

theorem Turned.right {o : Option (Nat × Nat)} {t : Timers} {ran : Option Nat}
    (h : Turned s S o t ran) : Right t (s.activeAfterTurn S ran) := by
  cases h with
  | rests right user => exact right
  | runs root mem old due right user =>
    simpa only [activeAfterTurn, repeated, old, decide_eq_true_eq] using right

theorem step_right {a : Action} (hr : Right s S) (hpossible : s.Possible a)
    (hproper : Proper s S a) :
    ∃ t ran, s.step a = some (t, ran) ∧ Right t (activeAfter s S ran a) := by
  cases a with
  | construct id =>
    obtain ⟨hconstruct, hright, -⟩ := construct_right hr hpossible
    exact ⟨_, none, by rw [step, hconstruct]; rfl, hright⟩
  | destroy id =>
    obtain ⟨t, hdestroy, hright, -⟩ := destroy_right hr hpossible hproper
    exact ⟨t, none, by rw [step, hdestroy]; rfl, hright⟩
  | start id timeout interval time =>
    obtain ⟨t, hstart, hright, -⟩ :=
      start_right hr hpossible hproper.1 hproper.2 timeout interval time
    exact ⟨t, none, by rw [step, hstart]; rfl, hright⟩
  | stop id =>
    obtain ⟨t, hstop, hright, -⟩ := stop_right hr hpossible hproper
    exact ⟨t, none, by rw [step, hstop]; rfl, hright⟩
  | update time time' =>
    obtain ⟨t, ran, hturn, hturned⟩ := turn_right hr 0 time time'
    exact ⟨t, ran, hturn, hturned.right⟩
  | callbackReturns time time' =>
    obtain ⟨t, ran, hstep, hturned⟩ := callbackReturns_right hr hpossible time time'
    exact ⟨t, ran, hstep, hturned.right⟩

/-- The timers, with the active ones. -/
structure Watched where
  timers : Timers
  active : Finset Nat

namespace Watched

def init (node : Nat → HeapNode Nat) : Watched := ⟨Timers.init node, ∅⟩

def step (w : Watched) (a : Action) : Option Watched :=
  (w.timers.step a).map fun (t, ran) => ⟨t, w.timers.activeAfter w.active ran a⟩

theorem step_eq_some {w v : Watched} {a : Action} (h : w.step a = some v) :
    ∃ t ran, w.timers.step a = some (t, ran) ∧ v = ⟨t, w.timers.activeAfter w.active ran a⟩ := by
  obtain ⟨⟨t, ran⟩, hstep, rfl⟩ := Option.map_eq_some_iff.mp h
  exact ⟨t, ran, hstep, rfl⟩

/-- The heap is a tree of the active timers, in the order of their deadlines. -/
def HoldsActive (w : Watched) : Prop := w.timers.gRootHeap.Holds w.timers.key w.active

theorem init_right (node : Nat → HeapNode Nat) : Right (init node).timers (init node).active :=
  ⟨Heap.holds_init node, nofun, nofun⟩

/-- An action that is not proper leaves a node too many in the heap, or one too few in the count. -/
theorem HoldsActive.proper {w v : Watched} {a : Action} (hr : Right w.timers w.active)
    (hpossible : w.timers.Possible a) (h : w.step a = some v) (hholds : v.HoldsActive) :
    Proper w.timers w.active a := by
  obtain ⟨t, ran, hstep, rfl⟩ := step_eq_some h
  obtain ⟨hnelts, hsmall⟩ := hr.heap.nelts
  obtain ⟨hnelts', hsmall'⟩ := Heap.Holds.nelts hholds
  cases a with
  | construct id => trivial
  | destroy id =>
    intro hid hkey
    rw [Timers.step, destroy_of_key_eq_zero hpossible hkey] at hstep
    cases hstep
    exact (Finset.card_erase_lt_of_mem hid).ne (hnelts'.symm.trans hnelts)
  | start id timeout interval time =>
    obtain ⟨t', hstart, heq⟩ := Option.map_eq_some_iff.mp hstep
    obtain ⟨rfl, -⟩ := Prod.ext_iff.mp heq
    rw [start_nelts hstart, hnelts] at hnelts'
    simp only [activeAfter] at hnelts' hsmall'
    by_cases hid : id ∈ w.active
    · rw [Finset.insert_eq_of_mem hid] at hnelts'
      omega
    · rw [Finset.card_insert_of_notMem hid] at hsmall'
      exact ⟨hid, hsmall'⟩
  | stop id =>
    intro hid hkey
    rw [Timers.step, stop_of_key_eq_zero hpossible hkey] at hstep
    cases hstep
    exact (Finset.card_erase_lt_of_mem hid).ne (hnelts'.symm.trans hnelts)
  | update time time' => trivial
  | callbackReturns time time' => trivial

theorem holdsActive_iff (node : Nat → HeapNode Nat) (as : List Action)
    (h : Allowed (fun w a => w.timers.Possible a) step (init node) as) :
    Safe (fun _ _ w => w.HoldsActive) step (init node) as ↔
      Allowed (fun w a => Proper w.timers w.active a) step (init node) as := by
  refine safe_iff_allowed (I := fun w => Right w.timers w.active) ?_ ?_ (init_right node) h
  · intro w a hr hpossible hproper
    obtain ⟨t, ran, hstep, hright⟩ := step_right hr hpossible hproper
    exact ⟨⟨t, w.timers.activeAfter w.active ran a⟩, by rw [step, hstep]; rfl, hright.heap, hright⟩
  · intro w a v hr hpossible hstep hholds
    exact hholds.proper hr hpossible hstep

theorem holdsActive_iff_two_timers :
    Safe (fun _ _ w => w.HoldsActive) step (init fun _ => ⟨none, none, none⟩)
        [.construct 0, .construct 1, .start 0 10 0 5, .start 1 3 7 5, .update 8 8, .stop 0,
          .callbackReturns 8 8, .destroy 1] ↔
      Allowed (fun w a => Proper w.timers w.active a) step (init fun _ => ⟨none, none, none⟩)
        [.construct 0, .construct 1, .start 0 10 0 5, .start 1 3 7 5, .update 8 8, .stop 0,
          .callbackReturns 8 8, .destroy 1] :=
  holdsActive_iff _ _ (by decide)

/-- A timer that is started twice is in the heap twice. -/
theorem holdsActive_fails :
    Allowed (fun w a => w.timers.Possible a) step (init fun _ => ⟨none, none, none⟩)
        [.construct 0, .start 0 10 0 5, .start 0 10 0 5] ∧
      ¬ Safe (fun _ _ w => w.HoldsActive) step (init fun _ => ⟨none, none, none⟩)
        [.construct 0, .start 0 10 0 5, .start 0 10 0 5] := by
  refine ⟨by decide, fun hsafe => ?_⟩
  obtain ⟨w, hrun, hholds⟩ := hsafe.reached (init_right _).heap
  have hcounts : (run step (init fun _ => ⟨none, none, none⟩)
      [.construct 0, .start 0 10 0 5, .start 0 10 0 5]).map
        (fun w => (w.timers.gRootHeap.nelts, w.active.card)) = some (2, 1) := by decide
  rw [hrun] at hcounts
  have hnelts : w.timers.gRootHeap.nelts = 2 := (Prod.ext_iff.mp (Option.some.inj hcounts)).1
  have hcard : w.active.card = 1 := (Prod.ext_iff.mp (Option.some.inj hcounts)).2
  have heq := hnelts.symm.trans ((Heap.Holds.nelts hholds).1.trans hcard)
  exact absurd heq (by decide)

end Watched

end LuaServer.Timers
