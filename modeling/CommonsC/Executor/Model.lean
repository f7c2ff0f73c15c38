import CommonsC.Base.Transition
import Mathlib.Data.List.Nodup
import Mathlib.Logic.Function.Basic
import Mathlib.Tactic.Simps.Basic

/-!
# CommonsC.Executor.Model

The task executor (`util/executor/executor.c`) as a transition system: `n`
worker threads running `thread_worker`, any number of outside threads calling
the API, and the one thread that calls `executor_destroy`.

Every step is one lock-protected section of the source, or a part of one
where the order of the parts matters: `queue_poll` takes `pending.lock`, tests
the head, tests `destroyed` and starts to wait in separate steps, and
`queue_clear` finalizes the tasks one by one under the same lock.  A thread
that is inside such a section is the `holder` of `pending.lock`.  The
sections of `executor->lock`, `active.lock` and `task->lock` are single steps,
so these locks need no holder.  Nobody ever waits on `active.cond`, so its
signals and its broadcast wake no one.

A task is named by the number of tasks appended to `pending` before it.  The
two queues are lists of such names: a well-formed linked list, read from its
head.  Actions and finalizers are code of the caller: while a worker is inside
one, it can call `executor_submit`, `executor_cancel` and
`executor_task_state` any number of times, and an action can return any value.
-/

namespace CommonsC.Executor

open Function (update)

/-- The name of a task: how many tasks were submitted before it. -/
abbrev TaskId := Nat

/-- The value of `ECANCELED`. -/
def ECANCELED : Int := 125

/-- `executor_task_t`, with a record of the callbacks made for the task. -/
structure Task where
  /-- Where `calloc` put the task. -/
  addr : BitVec 64
  /-- Whether the `finalize` callback is not `NULL`. -/
  finalize : Bool
  cancelled : Bool
  /-- Set by `task_destroy`. -/
  freed : Bool
  /-- How often `action` was invoked. -/
  actionRuns : Nat
  /-- The results `finalize` was invoked with, in order. -/
  results : List Int

/-- A task as `task_create` makes it. -/
def taskCreate (addr : BitVec 64) (finalize : Bool) : Task :=
  ⟨addr, finalize, false, false, 0, []⟩

/-- `task_finalize`: invoke the callback if there is one. -/
def taskFinalize (task : Task) (result : Int) : Task :=
  if task.finalize then { task with results := task.results ++ [result] } else task

/-- `task_comparator`: the distance of the two pointers, cut to an `int`. -/
def taskComparator (p fv : BitVec 64) : BitVec 32 := (p - fv).setWidth 32

/-- `executor_task_state_t`. -/
inductive TaskState
  | notFound | pending | active | cancelled
  deriving DecidableEq

/-- The two API calls that scan the active and then the pending queue. -/
inductive Query
  | cancel | state
  deriving DecidableEq

/-- What an API call returned; the handle of a query is kept with its result. -/
inductive Ret
  /-- The task `executor_submit` returned, `none` for `NULL`. -/
  | submit (t : Option TaskId)
  | cancel (h : Option TaskId) (r : Int)
  | state (h : Option TaskId) (r : TaskState)
  deriving DecidableEq

/-- How far a thread is in an API call. -/
inductive CallPc
  | idle
  | returned (r : Ret)
  /-- `executor_submit`: not destroyed, about to create and append the task. -/
  | submitPush (finalize : Bool)
  /-- `queue_push`: appended, about to signal `pending.cond`. -/
  | submitSignal (t : TaskId)
  | scanActive (q : Query) (h : TaskId)
  | scanPending (q : Query) (h : TaskId)
  deriving DecidableEq

/-- The thread is between the first and the last step of an API call. -/
def CallPc.inProgress : CallPc → Bool
  | .idle | .returned _ => false
  | _ => true

/-- Where a worker is in `thread_worker`. -/
inductive WorkerPc
  /-- About to lock `pending.lock` in `queue_poll`. -/
  | poll
  /-- Holding the lock, at `while (queue->head == NULL)`. -/
  | pollHead
  /-- The head was `NULL`, about to test `destroyed`. -/
  | pollDestroyed
  /-- `destroyed` was read as false, about to wait on `pending.cond`. -/
  | pollWait
  /-- Blocked in `SDL_CondWait`, the lock released. -/
  | waiting
  /-- Woken up, about to retake the lock. -/
  | woken
  /-- `queue_poll` returned `t`, about to test `destroyed`. -/
  | polled (t : TaskId)
  | pushActive (t : TaskId)
  /-- About to read `task->cancelled`. -/
  | readCancelled (t : TaskId)
  | action (t : TaskId)
  /-- The action is over, about to test `destroyed` again. -/
  | recheck (t : TaskId) (result : Int)
  | finalize (t : TaskId) (result : Int)
  | finalizer (t : TaskId)
  | removeActive (t : TaskId)
  | destroyTask (t : TaskId)
  /-- The executor was destroyed when `queue_poll` returned `t`. -/
  | finalizeLast (t : TaskId)
  | finalizerLast (t : TaskId)
  | destroyLast (t : TaskId)
  /-- About to lock `pending.lock` in `queue_clear`. -/
  | clear
  /-- In `tasks_free`, with the list still to be freed. -/
  | clearing (ts : List TaskId)
  | clearFinalize (t : TaskId) (ts : List TaskId)
  | clearFinalizer (t : TaskId) (ts : List TaskId)
  | clearDestroy (t : TaskId) (ts : List TaskId)
  /-- `thread_worker` returned. -/
  | done
  deriving DecidableEq

/-- Where the caller of `executor_destroy` is. -/
inductive DestroyPc
  | idle | broadcastActive | broadcastPending | join | joined
  deriving DecidableEq

/-- A thread that can be inside an API call: a worker running a callback, or
an outside thread. -/
inductive Thread (n m : Nat)
  | worker (w : Fin n)
  | outside (c : Fin m)
  deriving DecidableEq

/-- The executor with `n` workers and `m` outside threads. -/
structure State (n m : Nat) where
  destroyed : Bool
  pending : List TaskId
  active : List TaskId
  /-- The worker inside a section of `pending.lock` that takes several steps. -/
  holder : Option (Fin n)
  worker : Fin n → WorkerPc
  call : Thread n m → CallPc
  destroyer : DestroyPc
  task : TaskId → Task
  /-- How many tasks were appended to `pending`. -/
  submitted : Nat

variable {n m : Nat}

/-! ## Reading the state -/

/-- `SDL_CondBroadcast(pending.cond)`, as a worker sees it. -/
def WorkerPc.wake : WorkerPc → WorkerPc
  | .waiting => .woken
  | pc => pc

/-- `pending.lock` is free, or the thread holds it already (SDL mutexes are
recursive). -/
def State.CanLock (s : State n m) (τ : Thread n m) : Prop :=
  ∀ w, s.holder = some w → τ = .worker w

/-- The worker is inside an action or a finalizer. -/
def State.InCallback (s : State n m) (w : Fin n) : Prop :=
  match s.worker w with
  | .action _ => True
  | .finalizer t | .finalizerLast t | .clearFinalizer t _ => (s.task t).finalize = true
  | _ => False

/-- The thread can start an API call: from inside a callback, or from outside
as long as `executor_destroy` was not called. -/
def State.MayCall (s : State n m) (τ : Thread n m) : Prop :=
  (s.call τ).inProgress = false ∧
    match τ with
    | .worker w => s.InCallback w
    | .outside _ => s.destroyer = .idle

/-- `tasks_find_by(head, task, task_comparator)`: the first task of the queue
whose address `task_comparator` takes for that of the handle. -/
def State.tasksFindBy (s : State n m) (queue : List TaskId) (h : TaskId) : Option TaskId :=
  queue.find? fun p => taskComparator (s.task p).addr (s.task h).addr == 0

/-- The result of a query whose scan found `p`; `queue` is the state to report
for a task of this queue. -/
def State.hit (s : State n m) (q : Query) (h p : TaskId) (queue : TaskState) : Ret :=
  match q with
  | .cancel => .cancel (some h) 1
  | .state => .state (some h) (if (s.task p).cancelled then .cancelled else queue)

/-- The result of a query whose scans both failed. -/
def Query.miss (q : Query) (h : TaskId) : Ret :=
  match q with
  | .cancel => .cancel (some h) 0
  | .state => .state (some h) .notFound

/-- The result of a query that is not carried out: the executor is destroyed,
or the handle is `NULL`. -/
def Query.refused (q : Query) (h : Option TaskId) : Ret :=
  match q with
  | .cancel => .cancel h (-1)
  | .state => .state h .notFound

/-! ## Changing the state -/

@[simps] def State.setWorker (s : State n m) (w : Fin n) (pc : WorkerPc) : State n m :=
  { s with worker := update s.worker w pc }

@[simps] def State.setCall (s : State n m) (τ : Thread n m) (pc : CallPc) : State n m :=
  { s with call := update s.call τ pc }

@[simps] def State.setTask (s : State n m) (t : TaskId) (task : Task) : State n m :=
  { s with task := update s.task t task }

/-- `task_finalize(task, result)`. -/
def State.taskFinalize (s : State n m) (t : TaskId) (result : Int) : State n m :=
  s.setTask t (Executor.taskFinalize (s.task t) result)

/-- `task_destroy(task)`. -/
def State.taskDestroy (s : State n m) (t : TaskId) : State n m :=
  s.setTask t { s.task t with freed := true }

/-- `task_cancel(match)` for a cancel query; a state query changes nothing. -/
@[simps] def State.mark (s : State n m) (q : Query) (p : TaskId) : State n m :=
  { s with task :=
      match q with
      | .cancel => update s.task p { s.task p with cancelled := true }
      | .state => s.task }

/-! ## The steps -/

/-- What a step does, for the record of a run. -/
inductive Label (n m : Nat)
  /-- The worker's own code. -/
  | worker (w : Fin n)
  /-- The worker leaves `SDL_CondWait` without having been signalled. -/
  | spurious (w : Fin n)
  /-- The callback the worker is in returns. -/
  | callback (w : Fin n)
  /-- The thread starts an API call or takes its next step. -/
  | call (τ : Thread n m)
  /-- The next step of `executor_destroy`. -/
  | destroy
  deriving DecidableEq

/-- One step of the executor. -/
inductive Step : State n m → Label n m → State n m → Prop
  -- `queue_poll(&executor->pending)`
  | pollLock {s : State n m} {w} : s.worker w = .poll → s.holder = none →
      Step s (.worker w) { s.setWorker w .pollHead with holder := some w }
  | pollTake {s : State n m} {w t ts} : s.worker w = .pollHead → s.pending = t :: ts →
      Step s (.worker w) { s.setWorker w (.polled t) with pending := ts, holder := none }
  | pollEmpty {s : State n m} {w} : s.worker w = .pollHead → s.pending = [] →
      Step s (.worker w) (s.setWorker w .pollDestroyed)
  | pollNull {s : State n m} {w} : s.worker w = .pollDestroyed → s.destroyed = true →
      Step s (.worker w) { s.setWorker w .clear with holder := none }
  | pollAlive {s : State n m} {w} : s.worker w = .pollDestroyed → s.destroyed = false →
      Step s (.worker w) (s.setWorker w .pollWait)
  | condWait {s : State n m} {w} : s.worker w = .pollWait →
      Step s (.worker w) { s.setWorker w .waiting with holder := none }
  | spurious {s : State n m} {w} : s.worker w = .waiting →
      Step s (.spurious w) (s.setWorker w .woken)
  | relock {s : State n m} {w} : s.worker w = .woken → s.holder = none →
      Step s (.worker w) { s.setWorker w .pollHead with holder := some w }
  -- the loop body of `thread_worker`
  | checkAlive {s : State n m} {w t} : s.worker w = .polled t → s.destroyed = false →
      Step s (.worker w) (s.setWorker w (.pushActive t))
  | checkDestroyed {s : State n m} {w t} : s.worker w = .polled t → s.destroyed = true →
      Step s (.worker w) (s.setWorker w (.finalizeLast t))
  | pushActive {s : State n m} {w t} : s.worker w = .pushActive t →
      Step s (.worker w) { s.setWorker w (.readCancelled t) with active := s.active ++ [t] }
  | runAction {s : State n m} {w t} : s.worker w = .readCancelled t →
      (s.task t).cancelled = false →
      Step s (.worker w) ((s.setWorker w (.action t)).setTask t
        { s.task t with actionRuns := (s.task t).actionRuns + 1 })
  | skipAction {s : State n m} {w t} : s.worker w = .readCancelled t →
      (s.task t).cancelled = true →
      Step s (.worker w) (s.setWorker w (.recheck t ECANCELED))
  | actionReturn {s : State n m} {w t} (result : Int) : s.worker w = .action t →
      (s.call (.worker w)).inProgress = false →
      Step s (.callback w) (s.setWorker w (.recheck t result))
  | recheck {s : State n m} {w t result} : s.worker w = .recheck t result →
      Step s (.worker w) (s.setWorker w (.finalize t (if s.destroyed then ECANCELED else result)))
  | finalize {s : State n m} {w t result} : s.worker w = .finalize t result →
      Step s (.worker w) ((s.setWorker w (.finalizer t)).taskFinalize t result)
  | finalizerReturn {s : State n m} {w t} : s.worker w = .finalizer t →
      (s.call (.worker w)).inProgress = false →
      Step s (.callback w) (s.setWorker w (.removeActive t))
  | removeActive {s : State n m} {w t} : s.worker w = .removeActive t →
      Step s (.worker w) { s.setWorker w (.destroyTask t) with active := s.active.erase t }
  | destroyTask {s : State n m} {w t} : s.worker w = .destroyTask t →
      Step s (.worker w) ((s.setWorker w .poll).taskDestroy t)
  | finalizeLast {s : State n m} {w t} : s.worker w = .finalizeLast t →
      Step s (.worker w) ((s.setWorker w (.finalizerLast t)).taskFinalize t ECANCELED)
  | finalizerLastReturn {s : State n m} {w t} : s.worker w = .finalizerLast t →
      (s.call (.worker w)).inProgress = false →
      Step s (.callback w) (s.setWorker w (.destroyLast t))
  | destroyLast {s : State n m} {w t} : s.worker w = .destroyLast t →
      Step s (.worker w) ((s.setWorker w .clear).taskDestroy t)
  -- `queue_clear(&executor->pending)`
  | clearLock {s : State n m} {w} : s.worker w = .clear → s.holder = none →
      Step s (.worker w) { s.setWorker w (.clearing s.pending) with holder := some w }
  | clearTake {s : State n m} {w t ts} : s.worker w = .clearing (t :: ts) →
      Step s (.worker w) (s.setWorker w (.clearFinalize t ts))
  | clearFinalize {s : State n m} {w t ts} : s.worker w = .clearFinalize t ts →
      Step s (.worker w) ((s.setWorker w (.clearFinalizer t ts)).taskFinalize t ECANCELED)
  | clearReturn {s : State n m} {w t ts} : s.worker w = .clearFinalizer t ts →
      (s.call (.worker w)).inProgress = false →
      Step s (.callback w) (s.setWorker w (.clearDestroy t ts))
  | clearDestroy {s : State n m} {w t ts} : s.worker w = .clearDestroy t ts →
      Step s (.worker w) ((s.setWorker w (.clearing ts)).taskDestroy t)
  | clearDone {s : State n m} {w} : s.worker w = .clearing [] →
      Step s (.worker w) { s.setWorker w .done with pending := [], holder := none }
  -- `executor_submit`
  | submitRefused {s : State n m} {τ} : s.MayCall τ → s.destroyed = true →
      Step s (.call τ) (s.setCall τ (.returned (.submit none)))
  | submitAccepted {s : State n m} {τ} (finalize : Bool) : s.MayCall τ → s.destroyed = false →
      Step s (.call τ) (s.setCall τ (.submitPush finalize))
  | submitPush {s : State n m} {τ finalize} (addr : BitVec 64) :
      s.call τ = .submitPush finalize → s.CanLock τ →
      (∀ t < s.submitted, (s.task t).freed = false → (s.task t).addr ≠ addr) →
      Step s (.call τ) { (s.setCall τ (.submitSignal s.submitted)).setTask s.submitted
          (taskCreate addr finalize) with
        pending := s.pending ++ [s.submitted], submitted := s.submitted + 1 }
  | submitSignal {s : State n m} {τ t} (w : Fin n) : s.call τ = .submitSignal t →
      s.worker w = .waiting →
      Step s (.call τ) ((s.setCall τ (.returned (.submit (some t)))).setWorker w .woken)
  | submitSignalLost {s : State n m} {τ t} : s.call τ = .submitSignal t →
      (∀ w, s.worker w ≠ .waiting) →
      Step s (.call τ) (s.setCall τ (.returned (.submit (some t))))
  -- `executor_cancel` and `executor_task_state`
  | queryRefused {s : State n m} {τ} (q : Query) (h : Option TaskId) : s.MayCall τ →
      s.destroyed = true ∨ h = none →
      Step s (.call τ) (s.setCall τ (.returned (q.refused h)))
  | queryAccepted {s : State n m} {τ} (q : Query) (h : TaskId) : s.MayCall τ →
      s.destroyed = false → h < s.submitted →
      Step s (.call τ) (s.setCall τ (.scanActive q h))
  | activeHit {s : State n m} {τ q h p} : s.call τ = .scanActive q h →
      s.tasksFindBy s.active h = some p →
      Step s (.call τ) ((s.setCall τ (.returned (s.hit q h p .active))).mark q p)
  | activeMiss {s : State n m} {τ q h} : s.call τ = .scanActive q h →
      s.tasksFindBy s.active h = none →
      Step s (.call τ) (s.setCall τ (.scanPending q h))
  | pendingHit {s : State n m} {τ q h p} : s.call τ = .scanPending q h → s.CanLock τ →
      s.tasksFindBy s.pending h = some p →
      Step s (.call τ) ((s.setCall τ (.returned (s.hit q h p .pending))).mark q p)
  | pendingMiss {s : State n m} {τ q h} : s.call τ = .scanPending q h → s.CanLock τ →
      s.tasksFindBy s.pending h = none →
      Step s (.call τ) (s.setCall τ (.returned (q.miss h)))
  -- `executor_destroy`
  | destroySet {s : State n m} : s.destroyer = .idle →
      (∀ c, (s.call (.outside c)).inProgress = false) →
      Step s .destroy { s with destroyed := true, destroyer := .broadcastActive }
  | destroyBroadcastActive {s : State n m} : s.destroyer = .broadcastActive →
      Step s .destroy { s with destroyer := .broadcastPending }
  | destroyBroadcastPending {s : State n m} : s.destroyer = .broadcastPending →
      Step s .destroy { s with worker := fun w => (s.worker w).wake, destroyer := .join }
  | destroyJoin {s : State n m} : s.destroyer = .join → (∀ w, s.worker w = .done) →
      Step s .destroy { s with destroyer := .joined }

/-- How many workers `executor_create(name, num_threads)` starts, on a machine
with `cpus` processors. -/
def numThreads (num_threads : Int) (cpus : Nat) : Nat :=
  if 0 < num_threads then num_threads.toNat else cpus

/-- A machine has a processor, so there is a worker. -/
theorem numThreads_pos (num_threads : Int) {cpus : Nat} (hcpus : 0 < cpus) :
    0 < numThreads num_threads cpus := by
  rw [numThreads]
  split
  · omega
  · exact hcpus

/-- The state `executor_create` leaves; `n` is `numThreads num_threads cpus`. -/
def executorCreate (n m : Nat) : State n m where
  destroyed := false
  pending := []
  active := []
  holder := none
  worker _ := .poll
  call _ := .idle
  destroyer := .idle
  task _ := taskCreate 0 false
  submitted := 0

/-- The executor as a transition system. -/
def system (n m : Nat) : TransitionSystem (State n m) (Label n m) where
  init s := s = executorCreate n m
  step := Step

/-- One more step of a run, under a given label. -/
theorem reachable_step {s s' : State n m} (l : Label n m) (hs : (system n m).Reachable s)
    (h : Step s l s') : (system n m).Reachable s' := hs.step h

/-- One more step of a run whose steps meet a condition. -/
theorem restrict_step {ok : State n m → Label n m → Prop} {s s' : State n m} (l : Label n m)
    (hs : ((system n m).restrict ok).Reachable s) (hl : ok s l) (h : Step s l s') :
    ((system n m).restrict ok).Reachable s' := hs.step ⟨hl, h⟩

end CommonsC.Executor
