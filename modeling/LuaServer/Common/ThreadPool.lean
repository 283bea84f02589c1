import Mathlib.Tactic.Common
import LuaServer.Reasoning.Transition

/-!
# ThreadPool — tasks between the main thread and the workers

The main thread puts tasks into `_waitTasks`; each worker takes one, runs `process()` and puts it
into `_completeTasks`; `update` on the main thread takes one of these and calls `complete()`, which
calls the function of the user.  An action is one step of one thread, so every interleaving is a
run.  `TQueue` is a queue whose calls are single steps.

The tasks are those of `DBThreadPool`.  The state also keeps which tasks have been added, how often
`process()` was entered and left, and what the user was told.
-/

open Reasoning

namespace LuaServer

structure TQueue (α : Type) where
  mqueue : List α
deriving DecidableEq

namespace TQueue

variable {α : Type}

def push (q : TQueue α) (object : α) : TQueue α := ⟨q.mqueue ++ [object]⟩

def tryPop (q : TQueue α) : Option (α × TQueue α) :=
  match q.mqueue with
  | [] => none
  | object :: rest => some (object, ⟨rest⟩)

end TQueue

/-- The address of a task. -/
abbrev TaskPtr : Type := Nat

/-- What the database answers to a task: the results of `prepare` and `execute`, and the error that
the connection reports. -/
structure DBReply where
  prepare : Int
  execute : Int
  errno : Int
  error : List UInt8
deriving DecidableEq

inductive DBTaskKind
  | sql
  | redis
deriving DecidableEq

structure DBTask where
  kind : DBTaskKind
  -- the connection: that of the worker with this number
  _dbi : Option Nat
  _ret : Int
  _errno : Int
  _error : List UInt8
  -- whether there is a function to call
  backfunc : Bool
deriving DecidableEq

namespace DBTask

def setDbi (t : DBTask) (dbi : Nat) : DBTask := { t with _dbi := some dbi }

/-- `DBSqlTask::process` and `DBRedisTask::process`: a statement is executed if it could be
prepared, a command at once. -/
def process (t : DBTask) (r : DBReply) : DBTask :=
  let ret := match t.kind with
    | .sql => if 0 ≤ r.prepare then r.execute else r.prepare
    | .redis => r.execute
  { t with
    _ret := ret
    _errno := if ret < 0 then r.errno else t._errno
    _error := if ret < 0 then r.error else t._error }

/-- The arguments of `backfunc` in `complete`: the result set is left out. -/
def backfuncArgs (t : DBTask) : Int × Option (List UInt8) :=
  (t._errno, if t._ret < 0 then some t._error else none)

end DBTask

/-! ## 1. The pool -/

/-- Where a worker is in `CThread::backfunc`. -/
inductive Stage
  -- before the loop
  | start
  -- at the condition of the loop
  | test
  | popWaitTask
  | run (task : TaskPtr)
  -- in `process()`
  | process (task : TaskPtr)
  | push (task : TaskPtr)
  -- behind the loop
  | ended
deriving DecidableEq

namespace Stage

def task : Stage → Option TaskPtr
  | start | test | popWaitTask | ended => none
  | run task | process task | push task => some task

/-- `process()` of the task has been called. -/
def entered : Stage → Option TaskPtr
  | start | test | popWaitTask | run _ | ended => none
  | process task | push task => some task

/-- `process()` of the task has returned. -/
def left : Stage → Option TaskPtr
  | start | test | popWaitTask | run _ | process _ | ended => none
  | push task => some task

end Stage

structure CThread where
  _isrun : Bool
  stage : Stage
deriving DecidableEq

/-- A call that the main thread is in. -/
inductive MainCall
  -- `exit`, in the turn of its loop for the thread with this number
  | exit (i : Nat)
  -- `task->complete()`
  | complete (task : TaskPtr)
  -- the function of the user, called by `task->complete()`
  | backfunc (task : TaskPtr)
deriving DecidableEq

structure ThreadPool where
  _threads : List CThread
  _waitTasks : TQueue TaskPtr
  _completeTasks : TQueue TaskPtr
  task : TaskPtr → DBTask
  -- the innermost call first
  calls : List MainCall
  added : List TaskPtr
  -- the tasks for which `process()` was called, and those for which it has returned
  entered : List TaskPtr
  left : List TaskPtr
  -- the tasks that `update` has taken, to call `complete()`
  finished : List TaskPtr
  notified : List (TaskPtr × Int × Option (List UInt8))

/-- One step of the main thread or of a worker. -/
inductive PoolAction
  -- `create` makes one more thread
  | createThread
  | addTask (task : TaskPtr)
  | update
  | exit
  -- the main thread goes on in the call it is in
  | main
  -- the worker with this number goes on; the reply counts if it is in `process()`
  | worker (i : Nat) (reply : DBReply)

namespace ThreadPool

/-- A pool without threads, with the tasks that the program has made or will make. -/
def fresh (task : TaskPtr → DBTask) : ThreadPool := ⟨[], ⟨[]⟩, ⟨[]⟩, task, [], [], [], [], [], []⟩

/-- The user's code runs on the main thread. -/
def userRuns (s : ThreadPool) : Bool :=
  match s.calls with
  | [] | .backfunc _ :: _ => true
  | .exit _ :: _ | .complete _ :: _ => false

def addTask (s : ThreadPool) (task : TaskPtr) : ThreadPool :=
  { s with _waitTasks := s._waitTasks.push task, added := s.added ++ [task] }

def popWaitTask (s : ThreadPool) : Option (TaskPtr × ThreadPool) :=
  s._waitTasks.tryPop.map fun r => (r.1, { s with _waitTasks := r.2 })

def update (s : ThreadPool) : ThreadPool :=
  match s._completeTasks.tryPop with
  | none => s
  | some (task, rest) =>
    { s with
      _completeTasks := rest
      calls := .complete task :: s.calls
      finished := s.finished ++ [task] }

/-- One turn of the loop of `create`. -/
def createThread (s : ThreadPool) : ThreadPool :=
  { s with _threads := s._threads ++ [⟨true, .start⟩] }

/-- The call of `exit`: its loop begins with the first thread. -/
def exit (s : ThreadPool) : ThreadPool := { s with calls := .exit 0 :: s.calls }

def setThread (s : ThreadPool) (i : Nat) (t : CThread) : ThreadPool :=
  { s with _threads := s._threads.set i t }

/-- `CThread::backfunc`. -/
def workerStep (s : ThreadPool) (i : Nat) (t : CThread) (reply : DBReply) : Option ThreadPool :=
  match t.stage with
  | .start => some (s.setThread i { t with stage := .test })
  | .test => some (s.setThread i { t with stage := if t._isrun then .popWaitTask else .ended })
  | .popWaitTask =>
    match s.popWaitTask with
    | none => some (s.setThread i { t with stage := .test })
    | some (task, s') => some (s'.setThread i { t with stage := .run task })
  | .run task =>
    some { s.setThread i { t with stage := .process task } with
      task := Function.update s.task task ((s.task task).setDbi i)
      entered := s.entered ++ [task] }
  | .process task =>
    some { s.setThread i { t with stage := .push task } with
      task := Function.update s.task task ((s.task task).process reply)
      left := s.left ++ [task] }
  | .push task =>
    some { s.setThread i { t with stage := .test } with
      _completeTasks := s._completeTasks.push task }
  | .ended => none

/-- The rest of `exit` and of `complete`; `join` waits until the thread has ended. -/
def mainStep (s : ThreadPool) : Option ThreadPool :=
  match s.calls with
  | [] => none
  | .exit i :: calls =>
    match s._threads[i]? with
    | none => some { s with _threads := [], calls := calls }
    | some t =>
      if t._isrun then some (s.setThread i { t with _isrun := false })
      else if t.stage = .ended then some { s with calls := .exit (i + 1) :: calls }
      else none
  | .complete task :: calls =>
    if (s.task task).backfunc then
      some { s with
        calls := .backfunc task :: calls
        notified := s.notified ++ [(task, (s.task task).backfuncArgs)] }
    else some { s with calls := calls }
  | .backfunc task :: calls =>
    some { s with
      task := Function.update s.task task { s.task task with backfunc := false }
      calls := calls }

def step (s : ThreadPool) : PoolAction → Option ThreadPool
  | .createThread => if s.userRuns then some s.createThread else none
  | .addTask task => if s.userRuns then some (s.addTask task) else none
  | .update => if s.userRuns then some s.update else none
  | .exit => if s.userRuns then some s.exit else none
  | .main => s.mainStep
  | .worker i reply => s._threads[i]?.bind fun t => s.workerStep i t reply

/-! ## 2. Where the tasks are -/

/-- The number of workers for which `f` of the stage is the task. -/
def workersAt (s : ThreadPool) (f : Stage → Option TaskPtr) (task : TaskPtr) : Nat :=
  s._threads.countP fun t => f t.stage == some task

/-- The tasks waiting, held, complete and finished are those added, each as often, and the histories
of `process()` agree with the stages of the workers. -/
structure Counts (s : ThreadPool) : Prop where
  conserved : ∀ x, s._waitTasks.mqueue.count x + s.workersAt Stage.task x +
    s._completeTasks.mqueue.count x + s.finished.count x = s.added.count x
  entered : ∀ x, s.entered.count x =
    s.workersAt Stage.entered x + s._completeTasks.mqueue.count x + s.finished.count x
  left : ∀ x, s.left.count x =
    s.workersAt Stage.left x + s._completeTasks.mqueue.count x + s.finished.count x

/-- Each call of `complete()` notifies once at most, and `exit` has waited for the threads that it
is past. -/
structure Inv (s : ThreadPool) : Prop extends s.Counts where
  notified : ∀ x, (s.notified.map Prod.fst).count x + s.calls.count (.complete x) ≤
    s.finished.count x
  callers : ∀ c ∈ s.calls.tail, ∃ x, c = .backfunc x
  joined : ∀ i calls, s.calls = .exit i :: calls →
    ∀ j < i, ∀ t, s._threads[j]? = some t → t.stage = .ended

theorem fresh_inv (task : TaskPtr → DBTask) : (fresh task).Inv where
  conserved _ := rfl
  entered _ := rfl
  left _ := rfl
  notified _ := Nat.le_refl _
  callers _ hc := by cases hc
  joined _ _ h := by cases h

theorem workersAt_setThread {s : ThreadPool} {i : Nat} {t : CThread} (h : s._threads[i]? = some t)
    (t' : CThread) (f : Stage → Option TaskPtr) (x : TaskPtr) :
    (s.setThread i t').workersAt f x + (if f t.stage = some x then 1 else 0) =
      s.workersAt f x + if f t'.stage = some x then 1 else 0 := by
  obtain ⟨hi, rfl⟩ := List.getElem?_eq_some_iff.mp h
  simp only [workersAt, setThread, List.countP_set hi, beq_iff_eq]
  by_cases hf : f s._threads[i].stage = some x
  · have hpos : 0 < s._threads.countP fun t => f t.stage == some x :=
      List.countP_pos_iff.mpr ⟨_, List.getElem_mem hi, by rw [hf, beq_self_eq_true]⟩
    simp only [hf, if_true]
    omega
  · simp only [hf, if_false]
    omega

theorem count_pushed (queue : List TaskPtr) (task x : TaskPtr) :
    (queue ++ [task]).count x = queue.count x + if task = x then 1 else 0 := by
  rw [List.count_append, List.count_singleton]
  simp only [beq_iff_eq]

theorem count_tryPop {q rest : TQueue TaskPtr} {task : TaskPtr} (h : q.tryPop = some (task, rest))
    (x : TaskPtr) :
    q.mqueue.count x = rest.mqueue.count x + if task = x then 1 else 0 := by
  obtain ⟨queue⟩ := q
  cases queue with
  | nil => cases h
  | cons object queue =>
    cases h
    rw [List.count_cons]
    simp

/-! ## 3. What the steps do to the places of the tasks -/

theorem Counts.frame {s : ThreadPool} (hs : s.Counts) {threads : List CThread}
    {calls : List MainCall} {task : TaskPtr → DBTask}
    {notified : List (TaskPtr × Int × Option (List UInt8))}
    (hat : ∀ f : Stage → Option TaskPtr, f .start = none → f .ended = none → ∀ x,
      (threads.countP fun t => f t.stage == some x) = s.workersAt f x) :
    Counts { s with _threads := threads, calls := calls, task := task, notified := notified } where
  conserved x := by
    rw [← hs.conserved x, ← hat Stage.task rfl rfl x]
    rfl
  entered x := by
    refine (hs.entered x).trans ?_
    rw [← hat Stage.entered rfl rfl x]
    rfl
  left x := by
    refine (hs.left x).trans ?_
    rw [← hat Stage.left rfl rfl x]
    rfl

theorem Counts.createThread {s : ThreadPool} (hs : s.Counts) : s.createThread.Counts := by
  -- the new worker holds nothing
  apply hs.frame
  intro f hstart _ x
  rw [List.countP_append, List.countP_singleton, hstart]
  rfl

theorem Counts.addTask {s : ThreadPool} (hs : s.Counts) (task : TaskPtr) :
    (s.addTask task).Counts where
  conserved x := by
    have h := hs.conserved x
    have hpush := count_pushed s._waitTasks.mqueue task x
    have hadded := count_pushed s.added task x
    change (s._waitTasks.mqueue ++ [task]).count x + s.workersAt Stage.task x +
      s._completeTasks.mqueue.count x + s.finished.count x = (s.added ++ [task]).count x
    omega
  entered := hs.entered
  left := hs.left

theorem Counts.update {s : ThreadPool} (hs : s.Counts) : s.update.Counts := by
  unfold ThreadPool.update
  cases hpop : s._completeTasks.tryPop with
  | none => exact hs
  | some r =>
    obtain ⟨task, rest⟩ := r
    -- the task moves from one place to the next, so no sum changes
    have hmoves : ∀ x, rest.mqueue.count x + (s.finished ++ [task]).count x =
        s._completeTasks.mqueue.count x + s.finished.count x := by
      intro x
      have hpopped := count_tryPop hpop x
      have hfinished := count_pushed s.finished task x
      omega
    constructor
    case conserved =>
      intro x
      have h := hs.conserved x
      have := hmoves x
      change s._waitTasks.mqueue.count x + s.workersAt Stage.task x + rest.mqueue.count x +
        (s.finished ++ [task]).count x = s.added.count x
      omega
    case entered =>
      intro x
      have h := hs.entered x
      have := hmoves x
      change s.entered.count x = s.workersAt Stage.entered x + rest.mqueue.count x +
        (s.finished ++ [task]).count x
      omega
    case left =>
      intro x
      have h := hs.left x
      have := hmoves x
      change s.left.count x = s.workersAt Stage.left x + rest.mqueue.count x +
        (s.finished ++ [task]).count x
      omega

/-- A worker moves a task from the queue to its hands, through `process()` and to the other queue;
it goes on to another stage without a task only from such a stage. -/
theorem workerStep_cases {s t : ThreadPool} {i : Nat} {w : CThread} {reply : DBReply}
    (h : s.workerStep i w reply = some t) :
    (∃ stage, w.stage.task = none ∧ stage.task = none ∧ w.stage ≠ .ended ∧
        t = s.setThread i { w with stage := stage }) ∨
      (∃ task rest, w.stage = .popWaitTask ∧ s._waitTasks.tryPop = some (task, rest) ∧
        t = { s with _waitTasks := rest }.setThread i { w with stage := .run task }) ∨
      (∃ task, w.stage = .run task ∧
        t = { s.setThread i { w with stage := .process task } with
          task := Function.update s.task task ((s.task task).setDbi i)
          entered := s.entered ++ [task] }) ∨
      (∃ task, w.stage = .process task ∧
        t = { s.setThread i { w with stage := .push task } with
          task := Function.update s.task task ((s.task task).process reply)
          left := s.left ++ [task] }) ∨
      ∃ task, w.stage = .push task ∧
        t = { s.setThread i { w with stage := .test } with
          _completeTasks := s._completeTasks.push task } := by
  unfold workerStep at h
  cases hstage : w.stage with
  | start =>
    rw [hstage] at h
    exact .inl ⟨.test, rfl, rfl, by simp, (Option.some.inj h).symm⟩
  | test =>
    rw [hstage] at h
    refine .inl ⟨_, rfl, ?_, by simp, (Option.some.inj h).symm⟩
    split <;> rfl
  | popWaitTask =>
    simp only [hstage, ThreadPool.popWaitTask] at h
    cases hpop : s._waitTasks.tryPop with
    | none =>
      rw [hpop] at h
      exact .inl ⟨.test, rfl, rfl, by simp, (Option.some.inj h).symm⟩
    | some r =>
      rw [hpop] at h
      exact .inr (.inl ⟨r.1, r.2, rfl, rfl, (Option.some.inj h).symm⟩)
  | run task =>
    rw [hstage] at h
    exact .inr (.inr (.inl ⟨task, rfl, (Option.some.inj h).symm⟩))
  | process task =>
    rw [hstage] at h
    exact .inr (.inr (.inr (.inl ⟨task, rfl, (Option.some.inj h).symm⟩)))
  | push task =>
    rw [hstage] at h
    exact .inr (.inr (.inr (.inr ⟨task, rfl, (Option.some.inj h).symm⟩)))
  | ended =>
    rw [hstage] at h
    cases h

theorem entered_of_task {stage : Stage} (h : stage.task = none) : stage.entered = none := by
  cases stage <;> first | rfl | cases h

theorem left_of_task {stage : Stage} (h : stage.task = none) : stage.left = none := by
  cases stage <;> first | rfl | cases h

/-- A worker goes to another stage: the sums stay if they stay over the worker and the lists that
change with it. -/
theorem Counts.move {s : ThreadPool} {i : Nat} {w : CThread} (w' : CThread) (hs : s.Counts)
    (hw : s._threads[i]? = some w) {wait complete : TQueue TaskPtr} {entered left : List TaskPtr}
    {task : TaskPtr → DBTask}
    (htask : ∀ x, wait.mqueue.count x + (if w'.stage.task = some x then 1 else 0) +
        complete.mqueue.count x =
      s._waitTasks.mqueue.count x + (if w.stage.task = some x then 1 else 0) +
        s._completeTasks.mqueue.count x)
    (hentered : ∀ x, entered.count x + (if w.stage.entered = some x then 1 else 0) +
        s._completeTasks.mqueue.count x =
      s.entered.count x + (if w'.stage.entered = some x then 1 else 0) + complete.mqueue.count x)
    (hleft : ∀ x, left.count x + (if w.stage.left = some x then 1 else 0) +
        s._completeTasks.mqueue.count x =
      s.left.count x + (if w'.stage.left = some x then 1 else 0) + complete.mqueue.count x) :
    Counts { s.setThread i w' with
      _waitTasks := wait
      _completeTasks := complete
      task := task
      entered := entered
      left := left } where
  conserved x := by
    have := hs.conserved x
    have := htask x
    have := workersAt_setThread hw w' Stage.task x
    change wait.mqueue.count x + (s.setThread i w').workersAt Stage.task x +
      complete.mqueue.count x + s.finished.count x = s.added.count x
    omega
  entered x := by
    have := hs.entered x
    have := hentered x
    have := workersAt_setThread hw w' Stage.entered x
    change entered.count x = (s.setThread i w').workersAt Stage.entered x +
      complete.mqueue.count x + s.finished.count x
    omega
  left x := by
    have := hs.left x
    have := hleft x
    have := workersAt_setThread hw w' Stage.left x
    change left.count x = (s.setThread i w').workersAt Stage.left x +
      complete.mqueue.count x + s.finished.count x
    omega

theorem Counts.workerStep {s t : ThreadPool} {i : Nat} {w : CThread} {reply : DBReply}
    (hs : s.Counts) (hw : s._threads[i]? = some w) (h : s.workerStep i w reply = some t) :
    t.Counts := by
  rcases workerStep_cases h with ⟨stage, hold, hnew, -, rfl⟩ | ⟨task, rest, hold, hpop, rfl⟩ |
    ⟨task, hold, rfl⟩ | ⟨task, hold, rfl⟩ | ⟨task, hold, rfl⟩
  · apply hs.move ⟨w._isrun, stage⟩ hw
    · intro x
      rw [hold, hnew]
    · intro x
      rw [entered_of_task hold, entered_of_task hnew]
    · intro x
      rw [left_of_task hold, left_of_task hnew]
  · -- the first task of the queue is in the hands of the worker
    apply hs.move ⟨w._isrun, .run task⟩ hw
    · intro x
      have := count_tryPop hpop x
      simp only [hold, Stage.task, Option.some.injEq, reduceCtorEq, if_false]
      omega
    · intro x
      rw [hold]
      rfl
    · intro x
      rw [hold]
      rfl
  · apply hs.move ⟨w._isrun, .process task⟩ hw
    · intro x
      rw [hold]
      rfl
    · intro x
      simp only [hold, Stage.entered, setThread, count_pushed, Option.some.injEq, reduceCtorEq,
        if_false]
      omega
    · intro x
      rw [hold]
      rfl
  · apply hs.move ⟨w._isrun, .push task⟩ hw
    · intro x
      rw [hold]
      rfl
    · intro x
      rw [hold]
      rfl
    · intro x
      simp only [hold, Stage.left, setThread, count_pushed, Option.some.injEq, reduceCtorEq,
        if_false]
      omega
  · -- the task leaves the hands of the worker for the other queue
    apply hs.move ⟨w._isrun, .test⟩ hw
    · intro x
      simp only [hold, Stage.task, setThread, TQueue.push, count_pushed, Option.some.injEq,
        reduceCtorEq, if_false]
      omega
    · intro x
      simp only [hold, Stage.entered, setThread, TQueue.push, count_pushed, Option.some.injEq,
        reduceCtorEq, if_false]
      omega
    · intro x
      simp only [hold, Stage.left, setThread, TQueue.push, count_pushed, Option.some.injEq,
        reduceCtorEq, if_false]
      omega

/-! ## 4. The invariant -/

theorem mainStep_cases {s t : ThreadPool} (h : s.mainStep = some t) :
    (∃ i calls, s.calls = .exit i :: calls ∧ s._threads.length ≤ i ∧
        t = { s with _threads := [], calls := calls }) ∨
      (∃ i calls w, s.calls = .exit i :: calls ∧ s._threads[i]? = some w ∧
        t = s.setThread i { w with _isrun := false }) ∨
      (∃ i calls w, s.calls = .exit i :: calls ∧ s._threads[i]? = some w ∧ w.stage = .ended ∧
        t = { s with calls := .exit (i + 1) :: calls }) ∨
      (∃ task calls, s.calls = .complete task :: calls ∧
        (t = { s with calls := calls } ∨
          t = { s with
            calls := .backfunc task :: calls
            notified := s.notified ++ [(task, (s.task task).backfuncArgs)] })) ∨
      ∃ task calls, s.calls = .backfunc task :: calls ∧
        t = { s with
          task := Function.update s.task task { s.task task with backfunc := false }
          calls := calls } := by
  unfold mainStep at h
  cases hcalls : s.calls with
  | nil =>
    rw [hcalls] at h
    cases h
  | cons c calls =>
    rw [hcalls] at h
    cases c with
    | exit i =>
      cases hw : s._threads[i]? with
      | none =>
        simp only [hw, Option.some.injEq] at h
        exact .inl ⟨i, calls, rfl, List.getElem?_eq_none_iff.mp hw, h.symm⟩
      | some w =>
        simp only [hw] at h
        split at h
        · exact .inr (.inl ⟨i, calls, w, rfl, hw, (Option.some.inj h).symm⟩)
        · split at h
          · rename_i hended
            exact .inr (.inr (.inl ⟨i, calls, w, rfl, hw, hended, (Option.some.inj h).symm⟩))
          · cases h
    | complete task =>
      refine .inr (.inr (.inr (.inl ⟨task, calls, rfl, ?_⟩)))
      simp only at h
      split at h
      · exact .inr (Option.some.inj h).symm
      · exact .inl (Option.some.inj h).symm
    | backfunc task =>
      exact .inr (.inr (.inr (.inr ⟨task, calls, rfl, (Option.some.inj h).symm⟩)))

theorem Inv.callers_of_userRuns {s : ThreadPool} (hs : s.Inv) (h : s.userRuns = true) :
    ∀ c ∈ s.calls, ∃ x, c = .backfunc x := by
  intro c hc
  cases hcalls : s.calls with
  | nil =>
    rw [hcalls] at hc
    cases hc
  | cons d calls =>
    rw [hcalls] at hc
    rcases List.mem_cons.mp hc with rfl | hc
    · cases c with
      | backfunc x => exact ⟨x, rfl⟩
      | exit i => simp [userRuns, hcalls] at h
      | complete x => simp [userRuns, hcalls] at h
    · exact hs.callers c (by rwa [hcalls])

theorem Inv.createThread {s : ThreadPool} (hs : s.Inv) (hruns : s.userRuns = true) :
    s.createThread.Inv where
  toCounts := hs.toCounts.createThread
  notified := hs.notified
  callers := hs.callers
  joined i calls h := by
    have hmem : MainCall.exit i ∈ s.calls := by
      rw [show s.calls = .exit i :: calls from h]
      exact List.mem_cons_self
    obtain ⟨x, hx⟩ := hs.callers_of_userRuns hruns _ hmem
    cases hx

theorem Inv.addTask {s : ThreadPool} (hs : s.Inv) (task : TaskPtr) : (s.addTask task).Inv where
  toCounts := hs.toCounts.addTask task
  notified := hs.notified
  callers := hs.callers
  joined := hs.joined

theorem Inv.update {s : ThreadPool} (hs : s.Inv) (hruns : s.userRuns = true) : s.update.Inv := by
  have hcounts := hs.toCounts.update
  unfold ThreadPool.update at hcounts ⊢
  cases hpop : s._completeTasks.tryPop with
  | none => exact hs
  | some r =>
    rw [hpop] at hcounts
    refine ⟨hcounts, fun x => ?_, hs.callers_of_userRuns hruns, fun i calls h => by cases h⟩
    have := hs.notified x
    change (s.notified.map Prod.fst).count x + (MainCall.complete r.1 :: s.calls).count
      (.complete x) ≤ (s.finished ++ [r.1]).count x
    rw [count_pushed, List.count_cons]
    simp only [beq_iff_eq, MainCall.complete.injEq]
    omega

theorem Inv.exit {s : ThreadPool} (hs : s.Inv) (hruns : s.userRuns = true) : s.exit.Inv where
  toCounts := hs.toCounts.frame fun _ _ _ _ => rfl
  notified x := by
    show _ + (MainCall.exit 0 :: s.calls).count (.complete x) ≤ _
    rw [List.count_cons_of_ne (by simp)]
    exact hs.notified x
  callers := hs.callers_of_userRuns hruns
  joined i calls h j hj := by
    cases h
    exact absurd hj (Nat.not_lt_zero j)

/-- A call returns: below it the callers are as before. -/
theorem Inv.returned {s t : ThreadPool} {c : MainCall} (hs : s.Inv)
    (hcalls : s.calls = c :: t.calls) (hcounts : t.Counts) (hnotified : t.notified = s.notified)
    (hfinished : t.finished = s.finished) : t.Inv where
  toCounts := hcounts
  notified x := by
    have := hs.notified x
    have hle := List.count_le_count_cons (a := MainCall.complete x) (b := c) (l := t.calls)
    rw [hcalls] at this
    rw [hnotified, hfinished]
    omega
  callers d hd := by
    apply hs.callers d
    rw [hcalls]
    exact List.mem_of_mem_tail hd
  joined i calls hi := by
    -- `exit` is called by nobody
    obtain ⟨x, hx⟩ := hs.callers (.exit i) (by rw [hcalls, hi]; exact List.mem_cons_self)
    cases hx

/-- `exit` has waited for all threads. -/
theorem Inv.exited {s : ThreadPool} {i : Nat} {calls : List MainCall} (hs : s.Inv)
    (hcalls : s.calls = .exit i :: calls) (hlen : s._threads.length ≤ i) :
    Inv { s with _threads := [], calls := calls } := by
  -- the threads that are left out have ended
  have hzero : ∀ f : Stage → Option TaskPtr, f .start = none → f .ended = none → ∀ x,
      0 = s.workersAt f x := by
    intro f _ hf x
    refine (List.countP_eq_zero.mpr fun t ht => ?_).symm
    obtain ⟨j, hj, rfl⟩ := List.getElem_of_mem ht
    rw [hs.joined i calls hcalls j (by omega) _ (List.getElem?_eq_getElem hj), hf]
    simp
  apply Inv.returned hs
  · exact hcalls
  · exact hs.toCounts.frame hzero
  · rfl
  · rfl

/-- `exit` takes the flag of a thread away and leaves its stage. -/
theorem Inv.stopThread {s : ThreadPool} {i : Nat} {w : CThread} (hs : s.Inv)
    (hw : s._threads[i]? = some w) : (s.setThread i { w with _isrun := false }).Inv where
  toCounts := by
    apply hs.toCounts.frame
    intro f _ _ x
    exact Nat.add_right_cancel (workersAt_setThread hw { w with _isrun := false } f x)
  notified := hs.notified
  callers := hs.callers
  joined j rest hj k hk t ht := by
    change (s._threads.set i { w with _isrun := false })[k]? = some t at ht
    rw [List.getElem?_set] at ht
    split at ht
    · rename_i hik
      subst hik
      rw [if_pos (List.getElem?_eq_some_iff.mp hw).1] at ht
      cases ht
      exact hs.joined j rest hj i hk w hw
    · exact hs.joined j rest hj k hk t ht

/-- `exit` has waited for a thread. -/
theorem Inv.joinedThread {s : ThreadPool} {i : Nat} {calls : List MainCall} {w : CThread}
    (hs : s.Inv) (hcalls : s.calls = .exit i :: calls) (hw : s._threads[i]? = some w)
    (hended : w.stage = .ended) : Inv { s with calls := .exit (i + 1) :: calls } where
  toCounts := hs.toCounts.frame fun _ _ _ _ => rfl
  notified x := by
    have := hs.notified x
    rw [hcalls, List.count_cons_of_ne (by simp)] at this
    show _ + (MainCall.exit (i + 1) :: calls).count (.complete x) ≤ _
    rwa [List.count_cons_of_ne (by simp)]
  callers d hd := hs.callers d (by rwa [hcalls])
  joined j rest hj k hk t ht := by
    cases hj
    -- the thread that has just been joined, or one joined before
    rcases Nat.lt_succ_iff_lt_or_eq.mp hk with hk | rfl
    · exact hs.joined i calls hcalls k hk t ht
    · rw [show s._threads[k]? = some t from ht, Option.some.injEq] at hw
      exact hw ▸ hended

/-- `complete` calls the function of the user. -/
theorem Inv.told {s : ThreadPool} {task : TaskPtr} {calls : List MainCall} (hs : s.Inv)
    (hcalls : s.calls = .complete task :: calls) :
    Inv { s with
      calls := .backfunc task :: calls
      notified := s.notified ++ [(task, (s.task task).backfuncArgs)] } where
  toCounts := hs.toCounts.frame fun _ _ _ _ => rfl
  notified x := by
    have := hs.notified x
    rw [hcalls, List.count_cons] at this
    simp only [beq_iff_eq, MainCall.complete.injEq] at this
    change ((s.notified ++ [(task, (s.task task).backfuncArgs)]).map Prod.fst).count x +
      (MainCall.backfunc task :: calls).count (.complete x) ≤ s.finished.count x
    rw [List.map_append, List.map_singleton, count_pushed, List.count_cons_of_ne (by simp)]
    change _ + (if task = x then 1 else 0) + _ ≤ _
    omega
  callers d hd := hs.callers d (by rwa [hcalls])
  joined j rest hj := by cases hj

theorem Inv.mainStep {s t : ThreadPool} (hs : s.Inv) (h : s.mainStep = some t) : t.Inv := by
  rcases mainStep_cases h with ⟨i, calls, hcalls, hlen, rfl⟩ | ⟨i, calls, w, hcalls, hw, rfl⟩ |
    ⟨i, calls, w, hcalls, hw, hended, rfl⟩ | ⟨task, calls, hcalls, rfl | rfl⟩ |
    ⟨task, calls, hcalls, rfl⟩
  · exact hs.exited hcalls hlen
  · exact hs.stopThread hw
  · exact hs.joinedThread hcalls hw hended
  · apply Inv.returned hs
    · exact hcalls
    · exact hs.toCounts.frame fun _ _ _ _ => rfl
    · rfl
    · rfl
  · exact hs.told hcalls
  · apply Inv.returned hs
    · exact hcalls
    · exact hs.toCounts.frame fun _ _ _ _ => rfl
    · rfl
    · rfl

theorem Inv.workerStep {s t : ThreadPool} {i : Nat} {w : CThread} {reply : DBReply} (hs : s.Inv)
    (hw : s._threads[i]? = some w) (h : s.workerStep i w reply = some t) : t.Inv := by
  -- a worker that goes on has not ended, so it is not one that `exit` has waited for
  have hframe : t.calls = s.calls ∧ t.notified = s.notified ∧ t.finished = s.finished ∧
      w.stage ≠ .ended ∧ ∃ w', t._threads = s._threads.set i w' := by
    rcases workerStep_cases h with ⟨stage, -, -, hended, rfl⟩ | ⟨task, rest, hold, -, rfl⟩ |
      ⟨task, hold, rfl⟩ | ⟨task, hold, rfl⟩ | ⟨task, hold, rfl⟩
    · exact ⟨rfl, rfl, rfl, hended, _, rfl⟩
    all_goals exact ⟨rfl, rfl, rfl, by rw [hold]; simp, _, rfl⟩
  obtain ⟨hcalls, hnotified, hfinished, hended, w', hthreads⟩ := hframe
  constructor
  case toCounts => exact hs.toCounts.workerStep hw h
  case notified =>
    intro x
    rw [hcalls, hnotified, hfinished]
    exact hs.notified x
  case callers =>
    rw [hcalls]
    exact hs.callers
  case joined =>
    intro j rest hj k hk u hu
    rw [hcalls] at hj
    rw [hthreads, List.getElem?_set_ne] at hu
    · exact hs.joined j rest hj k hk u hu
    · rintro rfl
      exact hended (hs.joined j rest hj i hk w hw)

theorem step_inv {s t : ThreadPool} {a : PoolAction} (hs : s.Inv) (h : s.step a = some t) :
    t.Inv := by
  cases a with
  | createThread =>
    obtain ⟨hruns, h⟩ := Option.ite_none_right_eq_some.mp h
    exact Option.some.inj h ▸ hs.createThread hruns
  | addTask task =>
    obtain ⟨-, h⟩ := Option.ite_none_right_eq_some.mp h
    exact Option.some.inj h ▸ hs.addTask task
  | update =>
    obtain ⟨hruns, h⟩ := Option.ite_none_right_eq_some.mp h
    exact Option.some.inj h ▸ hs.update hruns
  | exit =>
    obtain ⟨hruns, h⟩ := Option.ite_none_right_eq_some.mp h
    exact Option.some.inj h ▸ hs.exit hruns
  | main => exact hs.mainStep h
  | worker i reply =>
    obtain ⟨w, hw, h⟩ := Option.bind_eq_some_iff.mp h
    exact hs.workerStep hw h

theorem reachable_inv {task : TaskPtr → DBTask} {s : ThreadPool}
    (h : Reachable step (fresh task) s) : s.Inv :=
  h.invariant (fun _ _ _ hs hstep => step_inv hs hstep) (fresh_inv task)

/-! ## 5. Every task once -/

/-- The task is waiting, in the hands of one worker, complete or finished; its calls come once at
most, and `complete()` only after `process()` has returned. -/
structure Once (s : ThreadPool) (x : TaskPtr) : Prop where
  one_place : s._waitTasks.mqueue.count x + s.workersAt Stage.task x +
    s._completeTasks.mqueue.count x + s.finished.count x = 1
  process_once : s.entered.count x ≤ 1
  complete_once : s.finished.count x ≤ 1
  complete_after : s.finished.count x ≤ s.left.count x
  backfunc_once : (s.notified.map Prod.fst).count x ≤ 1

/-- No task is lost or doubled, so a task that was added once goes once through the pool.  Whoever
calls `addTask` has just made the task. -/
structure ExactlyOnce (s : ThreadPool) : Prop where
  conserved : ∀ x, s._waitTasks.mqueue.count x + s.workersAt Stage.task x +
    s._completeTasks.mqueue.count x + s.finished.count x = s.added.count x
  once : ∀ x, s.added.count x = 1 → s.Once x

theorem workersAt_entered_le (s : ThreadPool) (x : TaskPtr) :
    s.workersAt Stage.entered x ≤ s.workersAt Stage.task x := by
  apply List.countP_mono_left
  intro t _ ht
  cases hstage : t.stage <;> rw [hstage] at ht <;> first | exact ht | cases ht

theorem Inv.once {s : ThreadPool} (hs : s.Inv) {x : TaskPtr} (hx : s.added.count x = 1) :
    s.Once x := by
  have hconserved := hs.conserved x
  have hentered := hs.entered x
  have hleft := hs.left x
  have hnotified := hs.notified x
  have hheld := s.workersAt_entered_le x
  constructor <;> omega

theorem task_pool_exactly_once {task : TaskPtr → DBTask} {s : ThreadPool}
    (h : Reachable step (fresh task) s) : s.ExactlyOnce where
  conserved := (reachable_inv h).conserved
  once _ hx := (reachable_inv h).once hx

/-- Two workers and one task: the second worker finds the queue empty. -/
theorem task_pool_exactly_once_two_workers :
    ∃ s, run step (fresh fun _ => ⟨.redis, none, 0, 0, [], true⟩)
        [.createThread, .createThread, .addTask 7, .worker 0 ⟨0, 0, 0, []⟩,
          .worker 1 ⟨0, 0, 0, []⟩, .worker 0 ⟨0, 0, 0, []⟩, .worker 1 ⟨0, 0, 0, []⟩,
          .worker 0 ⟨0, 0, 0, []⟩, .worker 1 ⟨0, 0, 0, []⟩, .worker 0 ⟨0, 0, 0, []⟩,
          .worker 0 ⟨0, -1, 5, [33]⟩, .worker 0 ⟨0, 0, 0, []⟩, .update, .main, .main] = some s ∧
      s.notified = [(7, 5, some [33])] ∧ s.ExactlyOnce := by
  have hrun : run step (fresh fun _ => ⟨.redis, none, 0, 0, [], true⟩)
      [.createThread, .createThread, .addTask 7, .worker 0 ⟨0, 0, 0, []⟩,
        .worker 1 ⟨0, 0, 0, []⟩, .worker 0 ⟨0, 0, 0, []⟩, .worker 1 ⟨0, 0, 0, []⟩,
        .worker 0 ⟨0, 0, 0, []⟩, .worker 1 ⟨0, 0, 0, []⟩, .worker 0 ⟨0, 0, 0, []⟩,
        .worker 0 ⟨0, -1, 5, [33]⟩, .worker 0 ⟨0, 0, 0, []⟩, .update, .main, .main] = some _ := rfl
  exact ⟨_, hrun, rfl, task_pool_exactly_once ⟨_, hrun⟩⟩

end ThreadPool

end LuaServer
