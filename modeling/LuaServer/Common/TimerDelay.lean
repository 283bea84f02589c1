import LuaServer.Common.TimerSet
import LuaServer.Reasoning.WrapClock

/-!
# TimerDelay — the timers against the real time

Beside the timers stands when each of them should run its callback, on a clock that does not wrap.
`m_time` shows these instants modulo 2^32.  As long as no multiple of 2^32 lies between the clock
and the instant of the root, no callback runs early.  A timer whose instant is a multiple of 2^32
has the `m_time` of one that is not in the heap, and `stop` leaves it there.
-/

open Reasoning

namespace LuaServer.Timers

/-! ## 1. Runs on a clock -/

/-- The timers and the active ones, with the instant until which each of these waits. -/
structure Clocked where
  timers : Timers
  active : Finset Nat
  due : Nat → Nat
  -- what the last `start` of a timer has asked for
  interval : Nat → Nat
  -- the timer whose callback the last action has called
  ran : Option Nat

namespace Clocked

def init (node : Nat → HeapNode Nat) : Clocked :=
  ⟨Timers.init node, ∅, fun _ => 0, fun _ => 0, none⟩

def dueAfterTurn (c : Clocked) (time' : Nat) : Option Nat → Nat → Nat
  | none => c.due
  | some id => Function.update c.due id (time' + c.interval id)

def dueAfter (c : Clocked) (ran : Option Nat) : Action → Nat → Nat
  | .construct _ => c.due
  | .destroy _ => c.due
  | .start id timeout _ time => Function.update c.due id (time + timeout.toNat)
  | .stop _ => c.due
  | .update _ time' => c.dueAfterTurn time' ran
  | .callbackReturns _ time' => c.dueAfterTurn time' ran

def intervalAfter (c : Clocked) : Action → Nat → Nat
  | .start id _ interval _ => Function.update c.interval id interval.toNat
  | .construct _ => c.interval
  | .destroy _ => c.interval
  | .stop _ => c.interval
  | .update _ _ => c.interval
  | .callbackReturns _ _ => c.interval

def step (c : Clocked) (a : Action) : Option Clocked :=
  (c.timers.step a).map fun (t, ran) =>
    ⟨t, c.timers.activeAfter c.active ran a, c.dueAfter ran a, c.intervalAfter a, ran⟩

/-- No callback runs before its time, and a timer that is stopped or destroyed is out of the
heap. -/
def Respects (c : Clocked) (a : Action) (c' : Clocked) : Prop :=
  match a with
  | .construct _ => True
  | .destroy id => ¬ c'.timers.gRootHeap.Reaches id
  | .start _ _ _ _ => True
  | .stop id => ¬ c'.timers.gRootHeap.Reaches id
  | .update time _ => ∀ id, c'.ran = some id → c.due id ≤ time
  | .callbackReturns time _ => ∀ id, c'.ran = some id → c.due id ≤ time

/-- The clock has not wrapped between the two instants. -/
def RootTimely (c : Clocked) : Option (Nat × Nat) → Prop
  | none => True
  | some (time, _) => ∀ id ∈ c.timers.gRootHeap.min, ¬ Wraps (2 ^ 32) time (c.due id)

/-- What keeps the delays. -/
def Timely (c : Clocked) : Action → Prop
  | .construct _ => True
  | .destroy id => id ∈ c.active → c.due id % 2 ^ 32 ≠ 0
  | .start id _ _ _ => id ∉ c.active ∧ c.active.card + 1 < 2 ^ 32
  | .stop id => id ∈ c.active → c.due id % 2 ^ 32 ≠ 0
  | .update time time' => c.RootTimely (some (time, time'))
  | .callbackReturns time time' => c.RootTimely (c.timers.reads (.callbackReturns time time'))

instance (c : Clocked) : (o : Option (Nat × Nat)) → Decidable (c.RootTimely o)
  | none => .isTrue trivial
  | some (time, _) =>
    inferInstanceAs (Decidable (∀ id ∈ c.timers.gRootHeap.min, ¬ Wraps (2 ^ 32) time (c.due id)))

instance (c : Clocked) : (a : Action) → Decidable (c.Timely a)
  | .construct _ => .isTrue trivial
  | .destroy id => inferInstanceAs (Decidable (id ∈ c.active → c.due id % 2 ^ 32 ≠ 0))
  | .start id _ _ _ => inferInstanceAs (Decidable (id ∉ c.active ∧ c.active.card + 1 < 2 ^ 32))
  | .stop id => inferInstanceAs (Decidable (id ∈ c.active → c.due id % 2 ^ 32 ≠ 0))
  | .update time time' => inferInstanceAs (Decidable (c.RootTimely (some (time, time'))))
  | .callbackReturns time time' =>
    inferInstanceAs (Decidable (c.RootTimely (c.timers.reads (.callbackReturns time time'))))

/-! ## 2. The deadlines -/

/-- An active timer shows when it should run. -/
def Shown (s : Timers) (S : Finset Nat) (due interval : Nat → Nat) : Prop :=
  ∀ id ∈ S, s.user id = some ⟨iclock (due id), UInt32.ofNat (interval id)⟩

theorem iclock_timeout (timeout : UInt64) (time : Nat) :
    (timeout + (iclock time).toUInt64).toUInt32 = iclock (time + timeout.toNat) := by
  apply UInt32.toNat_inj.mp
  rw [iclock_toNat, UInt64.toNat_toUInt32, UInt64.toNat_add, UInt32.toNat_toUInt64, iclock_toNat]
  omega

theorem iclock_interval (interval time : Nat) :
    UInt32.ofNat interval + iclock time = iclock (time + interval) := by
  rw [iclock, iclock, ← UInt32.ofNat_add, Nat.add_comm]

theorem toUInt32_eq (interval : UInt64) : interval.toUInt32 = UInt32.ofNat interval.toNat := by
  apply UInt32.toNat_inj.mp
  rw [UInt64.toNat_toUInt32, UInt32.toNat_ofNat']

variable {c : Clocked} {s t : Timers} {S : Finset Nat} {due interval : Nat → Nat} {id : Nat}

theorem Shown.key (h : Shown s S due interval) (hid : id ∈ S) : s.key id = due id % 2 ^ 32 := by
  rw [Timers.key, h id hid]
  exact iclock_toNat _

theorem Shown.of_user (h : Shown s S due interval) {T : Finset Nat} (hT : T ⊆ S)
    (huser : ∀ x ∈ T, t.user x = s.user x) : Shown t T due interval := by
  intro x hx
  rw [huser x hx]
  exact h x (hT hx)

/-- A timer that is out of the heap. -/
theorem Shown.released (h : Shown s S due interval) (hright : Right t (S.erase id))
    (huser : ∀ x, x ≠ id → t.user x = s.user x) :
    ¬ t.gRootHeap.Reaches id ∧ Shown t (S.erase id) due interval := by
  constructor
  · intro hreaches
    exact Finset.notMem_erase id S (hright.heap.mem_of_reaches hreaches)
  · exact h.of_user (Finset.erase_subset _ _) fun x hx => huser x (Finset.ne_of_mem_erase hx)

theorem Shown.start (h : Shown s S due interval) {timer : Timer} {time timeout period : Nat}
    (huser : t.user = Function.update s.user id (some timer)) (hid : id ∉ S)
    (htimer : timer = ⟨iclock (time + timeout), UInt32.ofNat period⟩) :
    Shown t (Insert.insert id S) (Function.update due id (time + timeout))
      (Function.update interval id period) := by
  intro x hx
  rw [huser]
  rcases Finset.mem_insert.mp hx with rfl | hx
  · rw [Function.update_self, Function.update_self, Function.update_self, htimer]
  · have hne : x ≠ id := fun heq => hid (heq ▸ hx)
    rw [Function.update_of_ne hne, Function.update_of_ne hne, Function.update_of_ne hne]
    exact h x hx

/-- A callback that is called is not early, and the timer shows the end of its next interval. -/
theorem Shown.turned {o : Option (Nat × Nat)} {time time' : Nat} {ran : Option Nat}
    (h : Shown c.timers c.active c.due c.interval) (ho : ∀ p ∈ o, p = (time, time'))
    (htimely : c.RootTimely o) (hturned : Turned c.timers c.active o t ran) :
    (∀ id, ran = some id → c.due id ≤ time) ∧
      Shown t (c.timers.activeAfterTurn c.active ran) (c.dueAfterTurn time' ran) c.interval := by
  cases hturned with
  | rests right user => exact ⟨nofun, fun x hx => user ▸ h x hx⟩
  | runs root mem old due right user =>
    rename_i id timer
    obtain ⟨rfl, rfl⟩ := Prod.mk.inj (ho _ rfl)
    obtain rfl := Option.some.inj (old.symm.trans (h id mem))
    refine ⟨?_, fun x hx => ?_⟩
    · rintro _ ⟨⟩
      refine le_of_mod_le (htimely id root) ?_
      rw [← iclock_toNat, ← iclock_toNat]
      exact due
    · obtain ⟨hx, hrepeated⟩ := mem_activeAfterTurn hx
      rw [user, dueAfterTurn]
      by_cases hid : x = id
      · subst hid
        have hpos : 0 < UInt32.ofNat (c.interval x) := by
          simpa only [repeated, old, decide_eq_true_eq] using hrepeated rfl
        rw [Function.update_self, Function.update_self, if_pos hpos, iclock_interval]
      · rw [Function.update_of_ne hid, Function.update_of_ne hid]
        exact h x hx

theorem mem_reads {time time' : Nat} {p : Nat × Nat}
    (hp : p ∈ s.reads (.callbackReturns time time')) : p = (time, time') := by
  simp only [reads] at hp
  split at hp
  · cases hp
  split at hp
  · exact (Option.some.inj hp).symm
  · cases hp

/-! ## 3. Every run -/

theorem step_respects {a : Action} (hr : Right c.timers c.active)
    (hs : Shown c.timers c.active c.due c.interval) (hpossible : c.timers.Possible a)
    (htimely : c.Timely a) :
    ∃ c', c.step a = some c' ∧ Respects c a c' ∧
      Right c'.timers c'.active ∧ Shown c'.timers c'.active c'.due c'.interval := by
  cases a with
  | construct id =>
    obtain ⟨hconstruct, hright, hid⟩ := construct_right hr hpossible
    refine ⟨_, by rw [step, Timers.step, hconstruct]; rfl, trivial, hright, ?_⟩
    exact hs.of_user subset_rfl fun x hx => setUser_of_ne (ne_of_mem_of_not_mem hx hid) _
  | destroy id =>
    obtain ⟨t, hdestroy, hright, huser⟩ :=
      destroy_right hr hpossible fun hid => hs.key hid ▸ htimely hid
    have hnext := hs.released hright huser
    exact ⟨⟨t, _, _, _, none⟩, by rw [step, Timers.step, hdestroy]; rfl, hnext.1, hright, hnext.2⟩
  | start id timeout interval time =>
    obtain ⟨t, hstart, hright, huser⟩ :=
      start_right hr hpossible htimely.1 htimely.2 timeout interval time
    refine ⟨_, by rw [step, Timers.step, hstart]; rfl, trivial, hright, ?_⟩
    exact hs.start huser htimely.1 (by rw [iclock_timeout, toUInt32_eq])
  | stop id =>
    obtain ⟨t, hstop, hright, huser⟩ :=
      stop_right hr hpossible fun hid => hs.key hid ▸ htimely hid
    have hnext := hs.released hright huser
    exact ⟨⟨t, _, _, _, none⟩, by rw [step, Timers.step, hstop]; rfl, hnext.1, hright, hnext.2⟩
  | update time time' =>
    obtain ⟨t, ran, hturn, hturned⟩ := turn_right hr 0 time time'
    have hnext := hs.turned (fun p hp => (Option.some.inj hp).symm) htimely hturned
    exact ⟨⟨t, _, _, _, ran⟩, by rw [step, Timers.step, hturn]; rfl, hnext.1, hturned.right,
      hnext.2⟩
  | callbackReturns time time' =>
    obtain ⟨t, ran, hstep, hturned⟩ := callbackReturns_right hr hpossible time time'
    have hnext := hs.turned (fun p hp => mem_reads hp) htimely hturned
    exact ⟨⟨t, _, _, _, ran⟩, by rw [step, hstep]; rfl, hnext.1, hturned.right, hnext.2⟩

theorem delays_respected (node : Nat → HeapNode Nat) (as : List Action)
    (h : Allowed (fun c a => c.timers.Possible a ∧ c.Timely a) step (init node) as) :
    Safe Respects step (init node) as := by
  refine safe_of_allowed (I := fun c =>
    Right c.timers c.active ∧ Shown c.timers c.active c.due c.interval) ?_ ?_ h
  · rintro c a ⟨hr, hs⟩ ⟨hpossible, htimely⟩
    exact step_respects hr hs hpossible htimely
  · exact ⟨⟨Heap.holds_init node, nofun, nofun⟩, nofun⟩

theorem delays_respected_over_wrap :
    Safe Respects step (init fun _ => ⟨none, none, none⟩)
      [.construct 0, .start 0 10 7 (2 ^ 32 - 5), .update (2 ^ 32 + 6) (2 ^ 32 + 6),
        .callbackReturns (2 ^ 32 + 6) (2 ^ 32 + 6), .stop 0, .destroy 0] :=
  delays_respected _ _ (by decide)

/-- A timer that is started shortly before the wrap runs at the next update, before its timeout;
one whose deadline is the wrap is left in the heap by `stop`. -/
theorem delays_broken :
    (Allowed (fun c a => c.timers.Possible a) step (init fun _ => ⟨none, none, none⟩)
          [.construct 0, .start 0 10 0 (2 ^ 32 - 5), .update (2 ^ 32 - 4) (2 ^ 32 - 4)] ∧
        ¬ Safe Respects step (init fun _ => ⟨none, none, none⟩)
          [.construct 0, .start 0 10 0 (2 ^ 32 - 5), .update (2 ^ 32 - 4) (2 ^ 32 - 4)]) ∧
      Allowed (fun c a => c.timers.Possible a) step (init fun _ => ⟨none, none, none⟩)
          [.construct 0, .start 0 5 0 (2 ^ 32 - 5), .stop 0] ∧
        ¬ Safe Respects step (init fun _ => ⟨none, none, none⟩)
          [.construct 0, .start 0 5 0 (2 ^ 32 - 5), .stop 0] := by
  refine ⟨⟨by decide, ?_⟩, by decide, ?_⟩
  · rintro ⟨c1, h1, -, c2, h2, -, c3, h3, hr, -⟩
    cases h1
    cases h2
    cases h3
    exact absurd (hr 0 rfl) (by decide)
  · rintro ⟨c1, h1, -, c2, h2, -, c3, h3, hr, -⟩
    cases h1
    cases h2
    cases h3
    exact hr (.min rfl)

end Clocked

end LuaServer.Timers
