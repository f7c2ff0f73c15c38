import CommonsC.Executor.Lifecycle

/-!
# CommonsC.Executor.Finalization

Every submitted task is finalized exactly once.  That nothing happens twice is
read off the life cycle of `CommonsC.Executor.Lifecycle`; that nothing is
forgotten when `executor_destroy` returns takes one more invariant: a worker
that leaves `thread_worker` empties the pending queue first, and only workers
that are still running can fill it again.
-/

namespace CommonsC.Executor

variable {n m : Nat}

/-! ## The refinement -/

/-- The executor starts as a picture of no tasks at all. -/
theorem refines_executorCreate (n m : Nat) :
    Refines (executorCreate n m) fun _ => (.absent : Life n) where
  queue := ⟨by simp [executorCreate], by simp [State.queued, executorCreate],
    by simp [State.queued, executorCreate]⟩
  workers w := ⟨by simp [executorCreate, WorkerPc.task?], by simp⟩
  counted t := ⟨rfl, by simp [executorCreate, taskCreate], rfl⟩

/-- The executor refines the task life cycles. -/
theorem lifecycle_simulates (n m : Nat) :
    TransitionSystem.Simulation (system n m) (lifecycle n) Refines where
  init _ hs := ⟨fun _ => .absent, fun _ => rfl, hs ▸ refines_executorCreate n m⟩
  step _ _ _ _ hr hR h := refines_step (control_of_reachable hr) hR h

/-- In every reachable state some lives of the tasks account for it. -/
theorem exists_refines {s : State n m} (hs : (system n m).Reachable s) :
    ∃ a : TaskId → Life n, Refines s a :=
  let ⟨a, _, ha⟩ := (lifecycle_simulates n m).reachable hs
  ⟨a, ha⟩

/-! ## Nothing is left in the queue -/

/-- Once all workers returned, the pending queue is empty. -/
def Drained (s : State n m) : Prop := (∀ w, s.worker w = .done) → s.pending = []

/-- A thread that appends to the pending queue is not outlived by the workers. -/
theorem exists_not_done_of_submitPush (hn : 0 < n) {s : State n m} (hc : Control s)
    {τ : Thread n m} {finalize : Bool} (hcall : s.call τ = .submitPush finalize) :
    ∃ w, s.worker w ≠ .done := by
  cases τ with
  | worker w =>
      have hpc := hc.calling w (by simp [hcall, CallPc.inProgress])
      exact ⟨w, fun hw => by simp [hw, WorkerPc.calling] at hpc⟩
  | outside c =>
      have hd := hc.outside c (by simp [hcall, CallPc.inProgress])
      refine ⟨⟨0, hn⟩, fun hw => ?_⟩
      have := hc.exiting ⟨0, hn⟩ (by rw [hw]; rfl)
      simp [hd] at this

/-- Every step keeps the queue drained. -/
theorem drained_step (hn : 0 < n) {s s' : State n m} {l} (hc : Control s) (hs : Drained s)
    (h : Step s l s') : Drained s' := by
  intro hdone
  have hrun : ∀ {w pc}, pc ≠ .done → ¬∀ v, Function.update s.worker w pc v = .done :=
    fun {w} _ hpc h => hpc (by simpa using h w)
  cases h
  case submitPush hcall _ _ =>
    obtain ⟨w, hw⟩ := exists_not_done_of_submitPush hn hc hcall
    exact absurd (hdone w) hw
  case clearDone => rfl
  case destroyBroadcastPending =>
    refine hs fun w => ?_
    have hw : (s.worker w).wake = .done := hdone w
    exact WorkerPc.eq_done_of_wake hw
  all_goals first
    | exact hs hdone
    | exact (hrun (by simp) hdone).elim

/-- Every reachable state is drained. -/
theorem drained_of_reachable (hn : 0 < n) {s : State n m} (hs : (system n m).Reachable s) :
    Drained s :=
  hs.invariant
    (fun s h hdone => by
      subst h
      have : WorkerPc.poll = .done := hdone ⟨0, hn⟩
      cases this)
    fun _ _ _ hr => drained_step hn (control_of_reachable hr)

/-! ## Joining -/

/-- `executor_destroy` has joined all workers only when they returned. -/
def Joined (s : State n m) : Prop := s.destroyer = .joined → ∀ w, s.worker w = .done

/-- A worker that returned stays so. -/
theorem done_step {s s' : State n m} {l} (h : Step s l s') {w : Fin n}
    (hw : s.worker w = .done) : s'.worker w = .done := by
  have hne : ∀ {v pc}, s.worker v ≠ .done → Function.update s.worker v pc w = .done :=
    fun {v} _ hv => by
      have : w ≠ v := fun hwv => hv (hwv ▸ hw)
      rw [Function.update_of_ne this, hw]
  cases h
  case destroyBroadcastPending =>
    change (s.worker w).wake = .done
    rw [hw]; rfl
  all_goals first
    | exact hw
    | exact hne (by simp_all)

/-- Every step keeps the join honest. -/
theorem joined_step {s s' : State n m} {l} (hs : Joined s) (h : Step s l s') : Joined s' := by
  intro hj w
  by_cases hd : s.destroyer = .joined
  · exact done_step h (hs hd w)
  · cases h
    case destroyJoin hdone => exact hdone w
    all_goals first
      | exact absurd hj hd
      | cases hj

/-- In every reachable state the join is honest. -/
theorem joined_of_reachable {s : State n m} (hs : (system n m).Reachable s) : Joined s :=
  hs.invariant (fun _ h hj => by subst h; cases hj) fun _ _ _ _ => joined_step

/-! ## What `executor_submit` returned -/

/-- The task an `executor_submit` in progress appended, or a finished one
returned. -/
def CallPc.submitted? : CallPc → Option TaskId
  | .submitSignal t | .returned (.submit (some t)) => some t
  | _ => none

/-- Every step keeps the tasks that calls know of among the submitted ones. -/
theorem submitted_step {s s' : State n m} {l}
    (hs : ∀ τ t, (s.call τ).submitted? = some t → t < s.submitted) (h : Step s l s') :
    ∀ τ t, (s'.call τ).submitted? = some t → t < s'.submitted := by
  have hset : ∀ {τ pc}, (∀ t, pc.submitted? = some t → t < s.submitted) →
      ∀ υ t, (Function.update s.call τ pc υ).submitted? = some t → t < s.submitted := by
    intro τ pc hpc υ t ht
    by_cases hυ : υ = τ
    · subst hυ; exact hpc t (by simpa using ht)
    · exact hs υ t (by simpa [Function.update_of_ne hυ] using ht)
  cases h
  case submitPush τ _ _ hcall _ _ =>
    intro υ t ht
    by_cases hυ : υ = τ
    · subst hυ
      have : s.submitted = t := by simpa [CallPc.submitted?] using ht
      exact this ▸ Nat.lt_succ_self _
    · exact Nat.lt_succ_of_lt (hs υ t (by simpa [Function.update_of_ne hυ] using ht))
  case submitSignal τ t w hcall hw =>
    exact hset fun u hu => hs τ u (by rw [hcall]; exact hu)
  case submitSignalLost τ t hcall hw =>
    exact hset fun u hu => hs τ u (by rw [hcall]; exact hu)
  case queryRefused q _ _ _ => exact hset (by cases q <;> simp [Query.refused, CallPc.submitted?])
  case activeHit q _ _ _ _ => exact hset (by cases q <;> simp [State.hit, CallPc.submitted?])
  case pendingHit q _ _ _ _ _ => exact hset (by cases q <;> simp [State.hit, CallPc.submitted?])
  case pendingMiss q _ _ _ _ => exact hset (by cases q <;> simp [Query.miss, CallPc.submitted?])
  all_goals first
    | exact hs
    | exact hset (by simp [CallPc.submitted?])

/-- A task that `executor_submit` returned was submitted. -/
theorem lt_submitted_of_returned {s : State n m} (hs : (system n m).Reachable s) {τ : Thread n m}
    {t : TaskId} (h : s.call τ = .returned (.submit (some t))) : t < s.submitted :=
  hs.invariant (P := fun s => ∀ τ t, (s.call τ).submitted? = some t → t < s.submitted)
    (fun s h τ t ht => by subst h; simp [executorCreate, CallPc.submitted?] at ht)
    (fun _ _ _ _ => submitted_step) τ t (by rw [h]; rfl)

/-! ## Exactly once -/

/-- Once all workers returned, every submitted task is finished. -/
theorem Refines.finished {s : State n m} {a : TaskId → Life n} (ha : Refines s a)
    (hc : Control s) (hdone : ∀ w, s.worker w = .done) (hp : s.pending = []) {t : TaskId}
    (ht : t < s.submitted) : ∃ b, a t = .finished b := by
  have hh : s.holder = none := by
    cases hh : s.holder with
    | none => rfl
    | some w =>
        have := (hc.holder w).1 hh
        simp [hdone w, WorkerPc.holds] at this
  cases hlife : a t with
  | absent => exact absurd ((ha.queue.absent t).1 hlife) (Nat.not_le_of_lt ht)
  | waiting =>
      have := (ha.queue.waiting t).1 hlife
      simp [State.queued, hh, hp] at this
  | held w b f =>
      have := (ha.workers w).held t b f hlife
      simp [hdone w, WorkerPc.task?] at this
  | finished b => exact ⟨b, rfl⟩

/-- **Exactly-once finalization**: whatever the workers, the callbacks and the
outside threads do, no submitted task has its action or its finalizer invoked
twice, and once `executor_destroy` has joined the workers, every submitted
task that has a finalizer had it invoked exactly once. -/
theorem finalized_exactly_once (hn : 0 < n) {s : State n m} (hs : (system n m).Reachable s) :
    (∀ τ t, s.call τ = .returned (.submit (some t)) → t < s.submitted) ∧
      (∀ t < s.submitted, (s.task t).actionRuns ≤ 1 ∧ (s.task t).results.length ≤ 1) ∧
      (s.destroyer = .joined →
        ∀ t < s.submitted, (s.task t).finalize = true → (s.task t).results.length = 1) := by
  obtain ⟨a, ha⟩ := exists_refines hs
  refine ⟨fun _ _ => lt_submitted_of_returned hs, fun t _ => ⟨?_, ?_⟩, fun hj t ht hf => ?_⟩
  · rw [(ha.counted t).actions]
    exact (a t).actions_le_one
  · rw [(ha.counted t).results]
    split
    · exact (a t).finalizations_le_one
    · exact Nat.zero_le 1
  · have hdone := joined_of_reachable hs hj
    obtain ⟨b, hb⟩ :=
      ha.finished (control_of_reachable hs) hdone (drained_of_reachable hn hs hdone) ht
    rw [(ha.counted t).results, hb, if_pos hf]
    rfl

/-- One worker and one caller: a task is submitted, and the executor is
destroyed before the worker polls it. -/
theorem exists_joined : ∃ s : State 1 1, (system 1 1).Reachable s ∧ s.destroyer = .joined ∧
    0 < s.submitted ∧ (s.task 0).finalize = true := by
  have h : (system 1 1).Reachable (executorCreate 1 1) := .init rfl
  have h := reachable_step (.call (.outside 0)) h (.submitAccepted true ⟨rfl, rfl⟩ rfl)
  have h := reachable_step (.call (.outside 0)) h
    (.submitPush 16 rfl (by rintro w ⟨⟩) (by rintro t ⟨⟩))
  have h := reachable_step (.call (.outside 0)) h (.submitSignalLost rfl (by rintro w ⟨⟩))
  have h := reachable_step .destroy h (.destroySet rfl (by decide))
  have h := reachable_step .destroy h (.destroyBroadcastActive rfl)
  have h := reachable_step .destroy h (.destroyBroadcastPending rfl)
  have h := reachable_step (.worker 0) h (.pollLock rfl rfl)
  have h := reachable_step (.worker 0) h (.pollTake rfl rfl)
  have h := reachable_step (.worker 0) h (.checkDestroyed rfl rfl)
  have h := reachable_step (.worker 0) h (.finalizeLast rfl)
  have h := reachable_step (.callback 0) h (.finalizerLastReturn rfl rfl)
  have h := reachable_step (.worker 0) h (.destroyLast rfl)
  have h := reachable_step (.worker 0) h (.clearLock rfl rfl)
  have h := reachable_step (.worker 0) h (.clearDone rfl)
  have h := reachable_step .destroy h (.destroyJoin rfl (by decide))
  exact ⟨_, h, rfl, Nat.one_pos, rfl⟩

/-- Such a task had its finalizer invoked by the time `executor_destroy`
returned. -/
theorem finalized_exactly_once_joined : ∃ s : State 1 1, (system 1 1).Reachable s ∧
    s.destroyer = .joined ∧ (s.task 0).results.length = 1 := by
  obtain ⟨s, hs, hj, hk, hf⟩ := exists_joined
  exact ⟨s, hs, hj, (finalized_exactly_once (numThreads_pos 1 Nat.one_pos) hs).2.2 hj 0 hk hf⟩

end CommonsC.Executor
