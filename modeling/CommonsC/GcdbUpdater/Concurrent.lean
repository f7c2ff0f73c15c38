import CommonsC.Executor.Visibility
import CommonsC.GcdbUpdater.Transfer

/-!
# CommonsC.GcdbUpdater.Concurrent

The updater on top of the executor.

Any thread that may call the executor may call `commons_gcdb_updater_update`
and, once, `commons_gcdb_updater_deinit`: an outside thread, or a worker inside
a callback.  The steps of these two functions are those between which another
thread can come; what they call in the executor takes the executor's own steps.
While a worker is inside `update_task` or `update_finalizer`, it takes the steps
of `TaskStep`, which record whether a field of the updater is read.
A call that would use the updater after it was cleared has no further step.
-/

namespace CommonsC.GcdbUpdater

open Executor (TaskId ECANCELED WorkerPc CallPc Query Thread Label)
open Function (update)

/-! ## The update task -/

/-- Where a worker is in `update_task` or `update_finalizer`. -/
inductive TaskPc
  /-- In neither of them. -/
  | outside
  /-- About to call `setup_headers`. -/
  | setup
  /-- Inside `curl_easy_perform`. -/
  | transfer (ctx : TaskContext)
  /-- Inside it, after a callback that did not take its data. -/
  | stopped (ctx : TaskContext)
  | performed (result : Status)
  /-- About to test the result in `update_finalizer`. -/
  | finalizer (result : Int)
  /-- Inside the updater's callback. -/
  | callback
  | finalized

/-- The value of the enumerator. -/
def Status.toInt : Status → Int
  | .updated => 0
  | .noUpdate => 1
  | .httpError => 2
  | .curlError => 3

/-- Where a transfer is after a callback that took `taken` of `size` bytes. -/
def TaskPc.called (ctx : TaskContext) (taken size : Nat) : TaskPc :=
  if taken = size then .transfer ctx else .stopped ctx

/-- `header_cb` reads `path` when it opens the file. -/
def readsPath (call : HeaderCall) (ctx : TaskContext) : Bool :=
  ctx.status = 0 && call.response_code = 200

/-- `write_mapping_lines` reads `platform_match_substr` at a complete line. -/
def readsMatch (chunk : List UInt8) (ctx : TaskContext) : Bool :=
  0 ≤ ctx.status && ctx.fp.isSome && (ctx.pending ++ chunk).contains newline

/-- A step of an update task, and whether it reads a field of the updater. -/
inductive TaskStep (fresh : Nat → UInt8) (updater : Updater) : TaskPc → Bool → TaskPc → Prop
  | setupHeaders :
      TaskStep fresh updater .setup true (.transfer (.new fresh updater))
  | header {ctx ctx' taken} (access : FileAccess) (call : HeaderCall) :
      headerCb fresh access call ctx = some (taken, ctx') →
      TaskStep fresh updater (.transfer ctx) (readsPath call ctx)
        (.called ctx' taken call.buffer.length)
  | body {ctx ctx' taken} (chunk : List UInt8) :
      bodyCb fresh chunk ctx = some (taken, ctx') →
      TaskStep fresh updater (.transfer ctx) (readsMatch chunk ctx)
        (.called ctx' taken chunk.length)
  | perform {ctx} (code : Nat) :
      TaskStep fresh updater (.transfer ctx) false (.performed (verdict ctx.status code))
  | performStopped {ctx} :
      TaskStep fresh updater (.stopped ctx) false
        (.performed (verdict ctx.status curleWriteError))
  | finalizeCancelled :
      TaskStep fresh updater (.finalizer ECANCELED) false .finalized
  /-- `callback` is `NULL`. -/
  | finalizeSilent {result} : result ≠ ECANCELED →
      TaskStep fresh updater (.finalizer result) true .finalized
  | finalizeNotify {result} : result ≠ ECANCELED →
      TaskStep fresh updater (.finalizer result) true .callback
  | notified : TaskStep fresh updater .callback false .finalized

/-- What a worker enters at a step of its own from `old` to `new`. -/
def entered (tasks : List TaskId) (old new : WorkerPc) : TaskPc :=
  match old, new with
  | .readCancelled _, .action t => if t ∈ tasks then .setup else .outside
  | .finalize _ result, .finalizer t => if t ∈ tasks then .finalizer result else .outside
  | _, .finalizerLast t | _, .clearFinalizer t _ =>
      if t ∈ tasks then .finalizer ECANCELED else .outside
  | _, _ => .outside

/-- The code can return, with the result that the worker goes on with. -/
def Returns (code : TaskPc) (new : WorkerPc) : Prop :=
  match code, new with
  | .outside, _ | .finalized, _ => True
  | .performed status, .recheck _ result => result = status.toInt
  | _, _ => False

/-! ## The updater and its threads -/

/-- Where a thread is in `commons_gcdb_updater_update` or
`commons_gcdb_updater_deinit`. -/
inductive ApiPc
  | idle
  /-- About to lock `updater->lock`. -/
  | updateLock
  /-- About to call `executor_task_state`. -/
  | updateState
  | updateScan
  /-- In `update_thread_start`, about to call `executor_submit`. -/
  | updateSubmit
  | updateSubmitting
  | updateUnlock (started : Bool)
  | deinitLock
  /-- About to test `updater->update_task`. -/
  | deinitCancel
  | deinitCancelling
  | deinitUnlock
  /-- About to free and clear the updater. -/
  | deinitFree
  deriving DecidableEq

/-- The executor and one updater. -/
structure System (n m : Nat) where
  exec : Executor.State n m
  /-- `commons_gcdb_updater_deinit` has not returned. -/
  alive : Bool
  /-- Who holds `updater->lock`. -/
  owner : Option (Thread n m)
  update_task : Option TaskId
  /-- The tasks that were submitted with `update_task`. -/
  tasks : List TaskId
  api : Thread n m → ApiPc
  code : Fin n → TaskPc
  /-- `commons_gcdb_updater_deinit` was called. -/
  deinit : Bool
  /-- An update task has read the updater after it was cleared. -/
  misread : Bool

variable {n m : Nat}

/-- The thread is in no code of the updater, or in the updater's callback. -/
def System.MayRun (s : System n m) : Thread n m → Prop
  | .worker w => s.code w = .outside ∨ s.code w = .callback
  | .outside _ => True

def System.setApi (s : System n m) (τ : Thread n m) (pc : ApiPc) : System n m :=
  { s with api := update s.api τ pc }

/-- The call that the thread has begun is this query. -/
def Starts (q : Query) (h : Option TaskId) (pc : CallPc) : Prop :=
  pc = .returned (q.refused h) ∨ ∃ t, h = some t ∧ pc = .scanActive q t

/-- What a step does, for the record of a run. -/
inductive Act (n m : Nat)
  /-- A step of the executor, or of other code that calls it. -/
  | exec (l : Label n m)
  /-- A step of the update task on a worker. -/
  | task (w : Fin n)
  | update (τ : Thread n m)
  | deinit (τ : Thread n m)

/-- One step of the executor and the updater. -/
inductive Step (fresh : Nat → UInt8) (updater : Updater) :
    System n m → Act n m → System n m → Prop
  -- the executor
  | worker {s : System n m} {e w} : Executor.Step s.exec (.worker w) e →
      Step fresh updater s (.exec (.worker w)) { s with
        exec := e
        code := update s.code w (entered s.tasks (s.exec.worker w) (e.worker w)) }
  | spurious {s : System n m} {e w} : Executor.Step s.exec (.spurious w) e →
      Step fresh updater s (.exec (.spurious w)) { s with exec := e }
  | callback {s : System n m} {e w} : Executor.Step s.exec (.callback w) e →
      s.api (.worker w) = .idle → Returns (s.code w) (e.worker w) →
      Step fresh updater s (.exec (.callback w)) { s with
        exec := e
        code := update s.code w .outside }
  | call {s : System n m} {e τ} : Executor.Step s.exec (.call τ) e → s.api τ = .idle →
      s.MayRun τ →
      Step fresh updater s (.exec (.call τ)) { s with exec := e }
  | destroy {s : System n m} {e} : Executor.Step s.exec .destroy e →
      Step fresh updater s (.exec .destroy) { s with exec := e }
  -- `update_task` and `update_finalizer`
  | task {s : System n m} {w reads pc} : TaskStep fresh updater (s.code w) reads pc →
      s.api (.worker w) = .idle → (s.exec.call (.worker w)).inProgress = false →
      Step fresh updater s (.task w) { s with
        code := update s.code w pc
        misread := s.misread || (reads && !s.alive) }
  -- `commons_gcdb_updater_update`
  | updateCall {s : System n m} {τ} : s.api τ = .idle → s.alive = true → s.exec.MayCall τ →
      s.MayRun τ →
      Step fresh updater s (.update τ) (s.setApi τ .updateLock)
  | updateLock {s : System n m} {τ} : s.api τ = .updateLock → s.alive = true → s.owner = none →
      Step fresh updater s (.update τ) { s.setApi τ .updateState with owner := some τ }
  | updateState {s : System n m} {e τ} : s.api τ = .updateState → s.alive = true →
      Executor.Step s.exec (.call τ) e → Starts .state s.update_task (e.call τ) →
      Step fresh updater s (.update τ) { s.setApi τ .updateScan with exec := e }
  | updateScan {s : System n m} {e τ} : s.api τ = .updateScan →
      (s.exec.call τ).inProgress = true → Executor.Step s.exec (.call τ) e →
      Step fresh updater s (.update τ) { s with exec := e }
  | updateTest {s : System n m} {τ h} (r : Executor.TaskState) : s.api τ = .updateScan →
      s.exec.call τ = .returned (.state h r) →
      Step fresh updater s (.update τ) (s.setApi τ
        (if r = .notFound ∨ r = .cancelled then .updateSubmit else .updateUnlock false))
  | updateSubmit {s : System n m} {e τ} : s.api τ = .updateSubmit → s.alive = true →
      Executor.Step s.exec (.call τ) e →
      e.call τ = .returned (.submit none) ∨ e.call τ = .submitPush true →
      Step fresh updater s (.update τ) { s.setApi τ .updateSubmitting with exec := e }
  | updateSubmitting {s : System n m} {e τ} : s.api τ = .updateSubmitting →
      (s.exec.call τ).inProgress = true → Executor.Step s.exec (.call τ) e →
      Step fresh updater s (.update τ) { s with
        exec := e
        tasks := if s.exec.call τ = .submitPush true then s.exec.submitted :: s.tasks
          else s.tasks }
  | updateStore {s : System n m} {τ} (t : Option TaskId) : s.api τ = .updateSubmitting →
      s.exec.call τ = .returned (.submit t) →
      Step fresh updater s (.update τ) { s.setApi τ (.updateUnlock t.isSome) with
        update_task := t.or s.update_task }
  | updateUnlock {s : System n m} {τ started} : s.api τ = .updateUnlock started →
      Step fresh updater s (.update τ) { s.setApi τ .idle with owner := none }
  -- `commons_gcdb_updater_deinit`
  | deinitCall {s : System n m} {τ} : s.api τ = .idle → s.alive = true → s.deinit = false →
      s.exec.MayCall τ → s.MayRun τ →
      Step fresh updater s (.deinit τ) { s.setApi τ .deinitLock with deinit := true }
  | deinitLock {s : System n m} {τ} : s.api τ = .deinitLock → s.owner = none →
      Step fresh updater s (.deinit τ) { s.setApi τ .deinitCancel with owner := some τ }
  | deinitNull {s : System n m} {τ} : s.api τ = .deinitCancel → s.update_task = none →
      Step fresh updater s (.deinit τ) (s.setApi τ .deinitUnlock)
  | deinitCancel {s : System n m} {e τ} (t : TaskId) : s.api τ = .deinitCancel →
      s.update_task = some t → Executor.Step s.exec (.call τ) e →
      Starts .cancel (some t) (e.call τ) →
      Step fresh updater s (.deinit τ) { s.setApi τ .deinitCancelling with exec := e }
  | deinitCancelling {s : System n m} {e τ} : s.api τ = .deinitCancelling →
      (s.exec.call τ).inProgress = true → Executor.Step s.exec (.call τ) e →
      Step fresh updater s (.deinit τ) { s with exec := e }
  | deinitClear {s : System n m} {τ h r} : s.api τ = .deinitCancelling →
      s.exec.call τ = .returned (.cancel h r) →
      Step fresh updater s (.deinit τ) { s.setApi τ .deinitUnlock with update_task := none }
  | deinitUnlock {s : System n m} {τ} : s.api τ = .deinitUnlock →
      Step fresh updater s (.deinit τ) { s.setApi τ .deinitFree with owner := none }
  /-- The last step: `free`, `SDL_DestroyMutex` and `memset`. -/
  | deinitFree {s : System n m} {τ} : s.api τ = .deinitFree →
      Step fresh updater s (.deinit τ) { s.setApi τ .idle with
        alive := false
        update_task := none }

/-- What `executor_create` and `commons_gcdb_updater_init` leave. -/
def systemInit (n m : Nat) : System n m where
  exec := Executor.executorCreate n m
  alive := true
  owner := none
  update_task := none
  tasks := []
  api _ := .idle
  code _ := .outside
  deinit := false
  misread := false

/-- The executor and the updater as a transition system. -/
def concurrent (fresh : Nat → UInt8) (updater : Updater) (n m : Nat) :
    TransitionSystem (System n m) (Act n m) where
  init s := s = systemInit n m
  step := Step fresh updater

/-- One more step of a run, under a given act. -/
theorem concurrent_step {fresh : Nat → UInt8} {updater : Updater} {s s' : System n m} (a : Act n m)
    (hs : (concurrent fresh updater n m).Reachable s) (h : Step fresh updater s a s') :
    (concurrent fresh updater n m).Reachable s' := hs.step h

end CommonsC.GcdbUpdater
