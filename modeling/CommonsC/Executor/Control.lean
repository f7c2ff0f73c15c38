import CommonsC.Executor.Model

/-!
# CommonsC.Executor.Control

What the program counters of the executor's threads say about the shared
state, in every reachable state: who holds `pending.lock`, that a worker only
leaves its loop once the executor is destroyed, and which threads can be in
the middle of an API call.  And what one step can do to one task.
-/

namespace CommonsC.Executor

variable {n m : Nat}

/-! ## Kinds of program counters -/

/-- The worker is inside a section of `pending.lock`. -/
def WorkerPc.holds : WorkerPc → Bool
  | .pollHead | .pollDestroyed | .pollWait | .clearing _ | .clearFinalize _ _
  | .clearFinalizer _ _ | .clearDestroy _ _ => true
  | _ => false

/-- The worker has left the loop of `thread_worker`, or is in its last round. -/
def WorkerPc.exiting : WorkerPc → Bool
  | .finalizeLast _ | .finalizerLast _ | .destroyLast _ | .clear | .clearing _
  | .clearFinalize _ _ | .clearFinalizer _ _ | .clearDestroy _ _ | .done => true
  | _ => false

/-- The worker is in a callback whose API calls can take several steps: the
executor was not seen destroyed before the callback. -/
def WorkerPc.calling : WorkerPc → Bool
  | .action _ | .finalizer _ => true
  | _ => false

/-- The broadcast changes nothing for a worker that does not wait. -/
theorem WorkerPc.wake_of_ne {pc : WorkerPc} (h : pc ≠ .waiting) : pc.wake = pc := by
  cases pc <;> first
    | rfl
    | exact absurd rfl h

theorem WorkerPc.eq_done_of_wake {pc : WorkerPc} (h : pc.wake = .done) : pc = .done := by
  cases pc <;> cases h
  rfl

@[simp] theorem WorkerPc.holds_wake (pc : WorkerPc) : pc.wake.holds = pc.holds := by
  cases pc <;> rfl

@[simp] theorem WorkerPc.exiting_wake (pc : WorkerPc) : pc.wake.exiting = pc.exiting := by
  cases pc <;> rfl

@[simp] theorem WorkerPc.calling_wake (pc : WorkerPc) : pc.wake.calling = pc.calling := by
  cases pc <;> rfl

attribute [grind] WorkerPc.holds WorkerPc.exiting WorkerPc.calling CallPc.inProgress
  State.MayCall State.InCallback State.taskFinalize State.taskDestroy

attribute [grind =] WorkerPc.holds_wake WorkerPc.exiting_wake WorkerPc.calling_wake
  State.setWorker_worker State.setWorker_call State.setWorker_destroyed
  State.setWorker_destroyer State.setWorker_holder State.setCall_worker State.setCall_call
  State.setCall_destroyed State.setCall_destroyer State.setCall_holder State.setTask_worker
  State.setTask_call State.setTask_destroyed State.setTask_destroyer State.setTask_holder
  State.mark_worker State.mark_call State.mark_destroyed State.mark_destroyer State.mark_holder

/-! ## The control invariant -/

/-- The program counters agree with the shared state. -/
structure Control (s : State n m) : Prop where
  destroyed_iff : s.destroyed = true ↔ s.destroyer ≠ .idle
  exiting : ∀ w, (s.worker w).exiting = true → s.destroyed = true
  outside : ∀ c, (s.call (.outside c)).inProgress = true → s.destroyed = false
  calling : ∀ w, (s.call (.worker w)).inProgress = true → (s.worker w).calling = true
  holder : ∀ w, s.holder = some w ↔ (s.worker w).holds = true

/-- Two workers are not inside sections of `pending.lock` at once. -/
theorem Control.holds_unique {s : State n m} (hc : Control s) {v w : Fin n}
    (hv : (s.worker v).holds = true) (hw : (s.worker w).holds = true) : v = w :=
  Option.some.inj (((hc.holder v).2 hv).symm.trans ((hc.holder w).2 hw))

/-- The executor starts under control. -/
theorem control_executorCreate (n m : Nat) : Control (executorCreate n m) where
  destroyed_iff := by simp [executorCreate]
  exiting _ h := by simp [executorCreate, WorkerPc.exiting] at h
  outside _ _ := rfl
  calling _ h := by simp [executorCreate, CallPc.inProgress] at h
  holder _ := by simp [executorCreate, WorkerPc.holds]

/-- `destroyed` is set by the first step of `executor_destroy` only. -/
theorem destroyed_iff_step {s s' : State n m} {l} (hs : Control s) (h : Step s l s') :
    s'.destroyed = true ↔ s'.destroyer ≠ .idle := by
  have := hs.destroyed_iff
  cases h <;> grind -ring -linarith

/-- A worker leaves its loop only after reading `destroyed`. -/
theorem exiting_step {s s' : State n m} {l} (hs : Control s) (h : Step s l s') (w : Fin n) :
    (s'.worker w).exiting = true → s'.destroyed = true := by
  have := hs.exiting
  have := hs.destroyed_iff
  cases h <;> grind -ring -linarith

/-- No outside call is in progress once `executor_destroy` has begun. -/
theorem outside_step {s s' : State n m} {l} (hs : Control s) (h : Step s l s') (c : Fin m) :
    (s'.call (.outside c)).inProgress = true → s'.destroyed = false := by
  have := hs.outside
  have := hs.destroyed_iff
  cases h <;> grind -ring -linarith

/-- A worker is in the middle of an API call only inside a callback that
started on an executor not seen destroyed. -/
theorem calling_step {s s' : State n m} {l} (hs : Control s) (h : Step s l s') (w : Fin n) :
    (s'.call (.worker w)).inProgress = true → (s'.worker w).calling = true := by
  have := hs.calling
  have := hs.exiting
  cases h <;> grind -ring -linarith

/-- The holder of `pending.lock` is the one worker inside one of its sections. -/
theorem holder_step {s s' : State n m} {l} (hs : Control s) (h : Step s l s') (w : Fin n) :
    s'.holder = some w ↔ (s'.worker w).holds = true := by
  have := hs.holder
  cases h <;> grind -ring -linarith

/-- Every step keeps the executor under control. -/
theorem control_step {s s' : State n m} {l} (hs : Control s) (h : Step s l s') : Control s' :=
  ⟨destroyed_iff_step hs h, exiting_step hs h, outside_step hs h, calling_step hs h,
    holder_step hs h⟩

/-- Every reachable state is under control. -/
theorem control_of_reachable {s : State n m} (hs : (system n m).Reachable s) : Control s :=
  hs.invariant (fun _ h => h ▸ control_executorCreate n m) fun _ _ _ _ => control_step

/-! ## What a step does to a task -/

/-- The task the worker is about to finalize, and the result for it. -/
def WorkerPc.finalizing? : WorkerPc → Option (TaskId × Int)
  | .finalize t result => some (t, result)
  | .finalizeLast t | .clearFinalize t _ => some (t, ECANCELED)
  | _ => none

/-- What a step can do to a task. -/
inductive Touches (s : State n m) (p : TaskId) : Task → Prop
  | leave : Touches s p (s.task p)
  | create (addr : BitVec 64) (finalize : Bool) : p = s.submitted →
      Touches s p (taskCreate addr finalize)
  | mark : Touches s p { s.task p with cancelled := true }
  | run (w : Fin n) : s.worker w = .readCancelled p → (s.task p).cancelled = false →
      Touches s p { s.task p with actionRuns := (s.task p).actionRuns + 1 }
  | finalize (w : Fin n) (result : Int) : (s.worker w).finalizing? = some (p, result) →
      Touches s p (taskFinalize (s.task p) result)
  | free : Touches s p { s.task p with freed := true }

theorem touches_step {s s' : State n m} {l} (h : Step s l s') (p : TaskId) :
    Touches s p (s'.task p) := by
  -- Only the task of the step changes.
  have hset : ∀ {t task}, Touches s t task → Touches s p (Function.update s.task t task p) := by
    intro t task ht
    by_cases hpt : p = t
    · subst hpt; rwa [Function.update_self]
    · rw [Function.update_of_ne hpt]; exact .leave
  have hmark : ∀ (τ : Thread n m) ret q (t : TaskId),
      Touches s p (((s.setCall τ ret).mark q t).task p) := by
    intro τ ret q t
    cases q with
    | cancel => exact hset .mark
    | state => exact .leave
  cases h
  case runAction w t hw hc => exact hset (.run w hw hc)
  case finalize w t result hw => exact hset (.finalize w result (by rw [hw]; rfl))
  case finalizeLast w t hw => exact hset (.finalize w ECANCELED (by rw [hw]; rfl))
  case clearFinalize w t ts hw => exact hset (.finalize w ECANCELED (by rw [hw]; rfl))
  case destroyTask => exact hset .free
  case destroyLast => exact hset .free
  case clearDestroy => exact hset .free
  case activeHit τ q h t _ _ => exact hmark τ _ q t
  case pendingHit τ q h t _ _ _ => exact hmark τ _ q t
  case submitPush => exact hset (.create _ _ rfl)
  all_goals exact .leave

end CommonsC.Executor
