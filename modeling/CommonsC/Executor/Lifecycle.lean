import CommonsC.Executor.Control

/-!
# CommonsC.Executor.Lifecycle

What the executor is for, task by task: a submitted task waits, is taken by
one worker, has its action run at most once, is finalized once and is then
released.  `lifecycle` is this abstract system, and `lifecycle_simulates`
shows that the executor, with its queues, locks and program counters, is a
refinement of it: in every reachable state each task is in exactly one place
(the queue, the hands of one worker, or finished), and the callbacks made for
it are those its life so far accounts for.
-/

namespace CommonsC.Executor

open Function (update)

variable {n m : Nat}

/-! ## The abstract life of a task -/

/-- How far a task has got. -/
inductive Life (n : Nat)
  | absent
  | waiting
  /-- On the hands of a worker; its action was invoked, it was finalized. -/
  | held (w : Fin n) (acted finalized : Bool)
  | finished (acted : Bool)
  deriving DecidableEq

/-- One step in the life of a task. -/
inductive Life.Next : Life n → Life n → Prop
  | submit : Next .absent .waiting
  | take (w : Fin n) : Next .waiting (.held w false false)
  | act (w : Fin n) : Next (.held w false false) (.held w true false)
  | finalize (w : Fin n) (acted : Bool) : Next (.held w acted false) (.held w acted true)
  | release (w : Fin n) (acted : Bool) : Next (.held w acted true) (.finished acted)

/-- How often the action was invoked. -/
def Life.actions : Life n → Nat
  | .held _ acted _ | .finished acted => acted.toNat
  | _ => 0

/-- How often the task was finalized. -/
def Life.finalizations : Life n → Nat
  | .held _ _ finalized => finalized.toNat
  | .finished _ => 1
  | _ => 0

/-- The task was released after it was finalized. -/
def Life.released : Life n → Bool
  | .finished _ => true
  | _ => false

theorem Life.actions_le_one (l : Life n) : l.actions ≤ 1 := by
  cases l <;> simp [actions, Bool.toNat_le]

theorem Life.finalizations_le_one (l : Life n) : l.finalizations ≤ 1 := by
  cases l <;> simp [finalizations, Bool.toNat_le]

/-- The tasks of `n` workers, each living its own life. -/
def lifecycle (n : Nat) : TransitionSystem (TaskId → Life n) TaskId where
  init a := ∀ t, a t = .absent
  step a t a' := ∃ l, (a t).Next l ∧ a' = update a t l

/-- One task taking one step of its life. -/
theorem lifecycle_path {a : TaskId → Life n} {t : TaskId} {l : Life n} (h : (a t).Next l) :
    (lifecycle n).Path a [t] (update a t l) := .cons ⟨l, h, rfl⟩ (.nil _)

/-! ## Where the executor keeps its tasks -/

/-- The task on the hands of a worker. -/
def WorkerPc.task? : WorkerPc → Option TaskId
  | .polled t | .pushActive t | .readCancelled t | .action t | .recheck t _ | .finalize t _
  | .finalizer t | .removeActive t | .destroyTask t | .finalizeLast t | .finalizerLast t
  | .destroyLast t | .clearFinalize t _ | .clearFinalizer t _ | .clearDestroy t _ => some t
  | _ => none

/-- The tasks `queue_clear` has not reached yet. -/
def WorkerPc.clearRest? : WorkerPc → Option (List TaskId)
  | .clearing ts | .clearFinalize _ ts | .clearFinalizer _ ts | .clearDestroy _ ts => some ts
  | _ => none

/-- A worker inside `queue_clear` holds `pending.lock`, and has seen the executor
destroyed. -/
theorem WorkerPc.of_clearRest? {pc : WorkerPc} {ts : List TaskId} (h : pc.clearRest? = some ts) :
    pc.holds = true ∧ pc.exiting = true ∧ pc.calling = false := by
  cases pc <;> first
    | exact ⟨rfl, rfl, rfl⟩
    | cases h

/-- What the place of worker `w` says about the task on its hands. -/
def WorkerPc.Stage (pc : WorkerPc) (w : Fin n) (l : Life n) : Prop :=
  match pc with
  | .polled _ | .pushActive _ | .readCancelled _ | .finalizeLast _ | .clearFinalize _ _ =>
      l = .held w false false
  | .action _ => l = .held w true false
  | .recheck _ _ | .finalize _ _ => ∃ acted, l = .held w acted false
  | _ => ∃ acted, l = .held w acted true

/-- The tasks that wait to be taken: the pending queue, less what a
`queue_clear` in progress has already taken from it. -/
def State.queued (s : State n m) : List TaskId :=
  match s.holder with
  | some w => ((s.worker w).clearRest?).getD s.pending
  | none => s.pending

@[simp] theorem WorkerPc.task?_wake (pc : WorkerPc) : pc.wake.task? = pc.task? := by
  cases pc <;> rfl

@[simp] theorem WorkerPc.clearRest?_wake (pc : WorkerPc) :
    pc.wake.clearRest? = pc.clearRest? := by
  cases pc <;> rfl

@[simp] theorem WorkerPc.stage_wake (pc : WorkerPc) (w : Fin n) (l : Life n) :
    pc.wake.Stage w l = pc.Stage w l := by
  cases pc <;> rfl

/-- A worker that is not in `queue_clear` does not change what waits. -/
theorem State.queued_setWorker {s : State n m} {w : Fin n} {pc : WorkerPc}
    (h : (s.worker w).clearRest? = pc.clearRest?) : (s.setWorker w pc).queued = s.queued := by
  unfold State.queued
  simp only [setWorker_holder, setWorker_worker, setWorker_pending]
  cases s.holder with
  | none => rfl
  | some v =>
      by_cases hv : v = w
      · subst hv; simp [h]
      · simp [hv]

/-- Outside of `queue_clear` everything that waits is in the pending queue. -/
theorem State.queued_eq_pending {s : State n m} (h : ∀ w, (s.worker w).clearRest? = none) :
    s.queued = s.pending := by
  unfold State.queued
  cases s.holder with
  | none => rfl
  | some w => simp [h w]

/-- A thread that can lock `pending.lock` in an API call does not do so during a
`queue_clear`: the lock is free, or held by the worker itself, which is in a
callback of its loop. -/
theorem clearRest?_of_canLock {s : State n m} (hc : Control s) {τ : Thread n m}
    (hcall : (s.call τ).inProgress = true) (hl : s.CanLock τ) (w : Fin n) :
    (s.worker w).clearRest? = none := by
  cases hrest : (s.worker w).clearRest? with
  | none => rfl
  | some ts =>
      obtain ⟨hholds, -, hcalling⟩ := WorkerPc.of_clearRest? hrest
      obtain rfl := hl w ((hc.holder w).2 hholds)
      exact absurd (hc.calling w hcall) (by rw [hcalling]; nofun)

/-! ## The refinement relation -/

/-- The queue holds exactly the waiting tasks, each once; the tasks from `k`
on do not exist yet. -/
structure QueueOk (queue : List TaskId) (k : Nat) (a : TaskId → Life n) : Prop where
  absent : ∀ t, a t = .absent ↔ k ≤ t
  waiting : ∀ t, a t = .waiting ↔ t ∈ queue
  nodup : queue.Nodup

/-- Worker `w` has exactly the task on its hands that the lives say it holds. -/
structure Carries (w : Fin n) (pc : WorkerPc) (a : TaskId → Life n) : Prop where
  stage : ∀ t, pc.task? = some t → pc.Stage w (a t)
  held : ∀ t acted finalized, a t = .held w acted finalized → pc.task? = some t

/-- The callbacks made for a task are those its life accounts for, and it is
freed at its end. -/
structure Counted (task : Task) (l : Life n) : Prop where
  actions : task.actionRuns = l.actions
  results : task.results.length = if task.finalize then l.finalizations else 0
  freed : task.freed = l.released

/-- The executor state `s` is a picture of the lives `a`. -/
structure Refines (s : State n m) (a : TaskId → Life n) : Prop where
  queue : QueueOk s.queued s.submitted a
  workers : ∀ w, Carries w (s.worker w) a
  counted : ∀ t, Counted (s.task t) (a t)

/-! ### The queue -/

/-- Taking the first waiting task. -/
theorem QueueOk.take {t : TaskId} {q : List TaskId} {k : Nat} {a : TaskId → Life n}
    (h : QueueOk (t :: q) k a) (w : Fin n) (b f : Bool) :
    QueueOk q k (update a t (.held w b f)) where
  absent u := by
    have ht : a t = .waiting := (h.waiting t).2 (by simp)
    by_cases hu : u = t
    · subst hu
      have hk : ¬k ≤ u := fun hk => by simp [(h.absent u).2 hk] at ht
      simp [hk]
    · simp [Function.update_of_ne hu, h.absent]
  waiting u := by
    have hq := (List.nodup_cons.mp h.nodup).1
    by_cases hu : u = t
    · subst hu; simp [hq]
    · simp [h.waiting, hu]
  nodup := (List.nodup_cons.mp h.nodup).2

/-- Appending a new task. -/
theorem QueueOk.submit {q : List TaskId} {k : Nat} {a : TaskId → Life n} (h : QueueOk q k a) :
    QueueOk (q ++ [k]) (k + 1) (update a k .waiting) := by
  have hk : a k = .absent := (h.absent k).2 (Nat.le_refl k)
  have hq : k ∉ q := fun hmem => by simp [(h.waiting k).2 hmem] at hk
  refine ⟨fun u => ?_, fun u => ?_, ?_⟩
  · by_cases hu : u = k
    · subst hu; simp
    · rw [Function.update_of_ne hu, h.absent]
      exact ⟨fun hle => Nat.lt_of_le_of_ne hle (Ne.symm hu), Nat.le_of_succ_le⟩
  · by_cases hu : u = k
    · subst hu; simp
    · simp [h.waiting, hu]
  · exact List.nodup_append.mpr ⟨h.nodup, by simp, fun x hx y hy => by
      rw [List.mem_singleton.mp hy]; exact fun hxy => hq (hxy ▸ hx)⟩

/-- A held task moving on leaves the queue as it is. -/
theorem QueueOk.keep {q : List TaskId} {k : Nat} {a : TaskId → Life n} {t : TaskId} {l : Life n}
    (h : QueueOk q k a) (ha : a t ≠ .absent) (hw : a t ≠ .waiting) (hla : l ≠ .absent)
    (hlw : l ≠ .waiting) : QueueOk q k (update a t l) where
  absent u := by
    by_cases hu : u = t
    · subst hu; simp [hla, ← h.absent, ha]
    · simp [Function.update_of_ne hu, h.absent]
  waiting u := by
    by_cases hu : u = t
    · subst hu; simp [hlw, ← h.waiting, hw]
    · simp [Function.update_of_ne hu, h.waiting]
  nodup := h.nodup

/-! ### The workers -/

/-- The life of a task on the hands of worker `w`. -/
theorem Carries.life {w : Fin n} {pc : WorkerPc} {a : TaskId → Life n} {t : TaskId}
    (h : Carries w pc a) (ht : pc.task? = some t) : ∃ b f, a t = .held w b f := by
  have hs := h.stage t ht
  cases pc <;> simp only [WorkerPc.task?, reduceCtorEq] at ht <;>
    simp only [WorkerPc.Stage] at hs <;> first
    | exact ⟨_, _, hs⟩
    | exact hs.imp fun _ h => ⟨_, h⟩

/-- A worker moves while all lives stay the same. -/
theorem carries_update {f : Fin n → WorkerPc} {a : TaskId → Life n} {w : Fin n} {pc : WorkerPc}
    (h : ∀ v, Carries v (f v) a) (ht : pc.task? = (f w).task?)
    (hs : ∀ l, (f w).Stage w l → pc.Stage w l) (v : Fin n) : Carries v (update f w pc v) a := by
  by_cases hv : v = w
  · subst hv
    simp only [Function.update_self]
    exact ⟨fun t htask => hs _ ((h v).stage t (ht ▸ htask)),
      fun t b f ha => ht ▸ (h v).held t b f ha⟩
  · simpa [Function.update_of_ne hv] using h v

/-- Worker `w` takes a task that nobody holds, or moves on with or releases
the task on its hands. -/
theorem carries_update_life {f : Fin n → WorkerPc} {a : TaskId → Life n} {w : Fin n}
    {pc : WorkerPc} {t : TaskId} {l : Life n} (h : ∀ v, Carries v (f v) a)
    (hmine : ∀ u, (f w).task? = some u → u = t)
    (hold : ∀ v, v ≠ w → ∀ b f, a t ≠ .held v b f) (hnew : ∀ v, v ≠ w → ∀ b f, l ≠ .held v b f)
    (hstage : ∀ u, pc.task? = some u → u = t ∧ pc.Stage w l)
    (hheld : ∀ b f, l = .held w b f → pc.task? = some t) (v : Fin n) :
    Carries v (update f w pc v) (update a t l) := by
  by_cases hv : v = w
  · subst hv
    simp only [Function.update_self]
    refine ⟨fun u hu => ?_, fun u b f hu => ?_⟩
    · obtain ⟨rfl, hs⟩ := hstage u hu
      simpa using hs
    · by_cases hut : u = t
      · subst hut; exact hheld b f (by simpa using hu)
      · rw [Function.update_of_ne hut] at hu
        exact absurd (hmine u ((h v).held u b f hu)) hut
  · simp only [Function.update_of_ne hv]
    refine ⟨fun u hu => ?_, fun u b f hu => ?_⟩
    · have hs := (h v).stage u hu
      by_cases hut : u = t
      · subst hut
        obtain ⟨b, f', hlife⟩ := (h v).life hu
        exact absurd hlife (hold v hv b f')
      · rwa [Function.update_of_ne hut]
    · by_cases hut : u = t
      · subst hut; exact absurd (by simpa using hu) (hnew v hv b f)
      · exact (h v).held u b f (by rwa [Function.update_of_ne hut] at hu)

/-- A new task is on nobody's hands. -/
theorem carries_submit {f : Fin n → WorkerPc} {a : TaskId → Life n} {t : TaskId}
    (h : ∀ v, Carries v (f v) a) (ha : a t = .absent) (v : Fin n) :
    Carries v (f v) (update a t .waiting) where
  stage u hu := by
    obtain ⟨b, f', hlife⟩ := (h v).life hu
    have hut : u ≠ t := fun hut => by rw [hut, ha] at hlife; cases hlife
    rw [Function.update_of_ne hut]
    exact (h v).stage u hu
  held u b f' hu := by
    have hut : u ≠ t := fun hut => by simp [hut] at hu
    exact (h v).held u b f' (by rwa [Function.update_of_ne hut] at hu)

/-! ### The counters -/

/-- One task and its life change together. -/
theorem counted_update {f : TaskId → Task} {a : TaskId → Life n} {t : TaskId} {task : Task}
    {l : Life n} (h : ∀ u, Counted (f u) (a u)) (ht : Counted task l) (u : TaskId) :
    Counted (update f t task u) (update a t l u) := by
  by_cases hu : u = t
  · subst hu; simpa using ht
  · simpa [Function.update_of_ne hu] using h u

/-- A change of a task that makes no callback. -/
theorem counted_touch {f : TaskId → Task} {a : TaskId → Life n} {t : TaskId} {task : Task}
    (h : ∀ u, Counted (f u) (a u)) (ha : task.actionRuns = (f t).actionRuns)
    (hf : task.finalize = (f t).finalize) (hr : task.results = (f t).results)
    (hd : task.freed = (f t).freed) (u : TaskId) : Counted (update f t task u) (a u) := by
  by_cases hu : u = t
  · subst hu
    have hc := h u
    simpa using ⟨ha ▸ hc.actions, by rw [hr, hf]; exact hc.results, hd ▸ hc.freed⟩
  · simpa [Function.update_of_ne hu] using h u

/-- `task_finalize` makes the one callback that a finalized life accounts for. -/
theorem Counted.taskFinalize {task : Task} {w : Fin n} {b : Bool}
    (h : Counted task (.held w b false)) (result : Int) :
    Counted (taskFinalize task result) (.held w b true) := by
  obtain ⟨ha, hr, hd⟩ := h
  unfold Executor.taskFinalize
  cases hf : task.finalize <;>
    constructor <;> simp_all [Life.actions, Life.finalizations, Life.released]

/-- Freeing a task makes no callback. -/
theorem Counted.taskDestroy {task : Task} {w : Fin n} {b : Bool}
    (h : Counted task (.held w b true)) :
    Counted { task with freed := true } (.finished b : Life n) :=
  ⟨h.actions, h.results, rfl⟩

/-! ## The simulation -/

/-- Worker `w` moves while all lives stay the same. -/
theorem Refines.stay {s s' : State n m} {a : TaskId → Life n} {w : Fin n} {pc pc' : WorkerPc}
    (hs : Refines s a) (hw : s.worker w = pc) (hw' : s'.worker = update s.worker w pc')
    (hq : s'.queued = s.queued) (hk : s'.submitted = s.submitted) (htask : s'.task = s.task)
    (ht : pc'.task? = pc.task?) (hstage : ∀ l, pc.Stage w l → pc'.Stage w l) :
    ∃ ts a', (lifecycle n).Path a ts a' ∧ Refines s' a' := by
  refine ⟨[], a, .nil a, ?_, ?_, ?_⟩
  · rw [hq, hk]; exact hs.queue
  · rw [hw']; exact carries_update hs.workers (hw ▸ ht) (hw ▸ hstage)
  · rw [htask]; exact hs.counted

/-- Worker `w` takes the first waiting task. -/
theorem Refines.take {s s' : State n m} {a : TaskId → Life n} {w : Fin n} {pc pc' : WorkerPc}
    {t : TaskId} (hs : Refines s a) (hw : s.worker w = pc) (hw' : s'.worker = update s.worker w pc')
    (hq : s.queued = t :: s'.queued) (hk : s'.submitted = s.submitted) (htask : s'.task = s.task)
    (hidle : pc.task? = none) (ht : pc'.task? = some t)
    (hstage : pc'.Stage w (.held w false false)) :
    ∃ ts a', (lifecycle n).Path a ts a' ∧ Refines s' a' := by
  have ha : a t = .waiting := (hs.queue.waiting t).2 (by simp [hq])
  have hnext : (a t).Next (.held w false false) := ha ▸ .take w
  refine ⟨[t], _, lifecycle_path hnext, ?_, ?_, ?_⟩
  · rw [hk]; exact (hq ▸ hs.queue).take w false false
  · rw [hw']
    exact carries_update_life hs.workers (by simp [hw, hidle]) (by simp [ha])
      (fun v hv b f h => hv (by cases h; rfl))
      (fun u hu => ⟨Option.some.inj (hu.symm.trans ht), hstage⟩) (fun _ _ _ => ht)
  · have hc : Counted (s.task t) (.held w false false : Life n) :=
      have hc := ha ▸ hs.counted t
      ⟨hc.actions, hc.results, hc.freed⟩
    intro u
    rw [htask, ← Function.update_eq_self t s.task]
    exact counted_update hs.counted hc u

/-- Worker `w` moves on with the task on its hands. -/
theorem Refines.advance {s : State n m} {a : TaskId → Life n} {w : Fin n} {pc pc' : WorkerPc}
    {t : TaskId} {task : Task} {b f b' f' : Bool} (hs : Refines s a) (hw : s.worker w = pc)
    (ht : pc.task? = some t) (ht' : pc'.task? = some t) (ha : a t = .held w b f)
    (hnext : (a t).Next (.held w b' f')) (hcount : Counted task (.held w b' f' : Life n))
    (hstage : pc'.Stage w (.held w b' f')) (hrest : pc.clearRest? = pc'.clearRest?) :
    ∃ ts a', (lifecycle n).Path a ts a' ∧ Refines ((s.setWorker w pc').setTask t task) a' := by
  refine ⟨[t], _, lifecycle_path hnext, ?_, ?_, counted_update hs.counted hcount⟩
  · change QueueOk (s.setWorker w pc').queued s.submitted _
    rw [State.queued_setWorker (hw ▸ hrest)]
    exact hs.queue.keep (by simp [ha]) (by simp [ha]) (by simp) (by simp)
  · exact carries_update_life hs.workers (fun u hu => Option.some.inj (hu.symm.trans (hw ▸ ht)))
      (fun v hv _ _ h => hv (by rw [ha] at h; cases h; rfl))
      (fun v hv _ _ h => hv (by cases h; rfl))
      (fun u hu => ⟨Option.some.inj (hu.symm.trans ht'), hstage⟩) (fun _ _ _ => ht')

/-- `task_finalize` by worker `w`. -/
theorem Refines.finalize {s : State n m} {a : TaskId → Life n} {w : Fin n} {pc pc' : WorkerPc}
    {t : TaskId} {b : Bool} (result : Int) (hs : Refines s a) (hw : s.worker w = pc)
    (ht : pc.task? = some t) (ht' : pc'.task? = some t) (ha : a t = .held w b false)
    (hstage : pc'.Stage w (.held w b true)) (hrest : pc.clearRest? = pc'.clearRest?) :
    ∃ ts a', (lifecycle n).Path a ts a' ∧
      Refines ((s.setWorker w pc').taskFinalize t result) a' :=
  hs.advance hw ht ht' ha (ha ▸ .finalize w b) ((ha ▸ hs.counted t).taskFinalize result) hstage
    hrest

/-- `task_destroy` by worker `w`. -/
theorem Refines.release {s : State n m} {a : TaskId → Life n} {w : Fin n} {pc pc' : WorkerPc}
    {t : TaskId} (hs : Refines s a) (hw : s.worker w = pc) (ht : pc.task? = some t)
    (ht' : pc'.task? = none) (ha : ∃ b, a t = .held w b true)
    (hrest : pc.clearRest? = pc'.clearRest?) :
    ∃ ts a', (lifecycle n).Path a ts a' ∧ Refines ((s.setWorker w pc').taskDestroy t) a' := by
  obtain ⟨b, ha⟩ := ha
  have hnext : (a t).Next (.finished b) := ha ▸ .release w b
  refine ⟨[t], _, lifecycle_path hnext, ?_, ?_,
    counted_update hs.counted (ha ▸ hs.counted t).taskDestroy⟩
  · change QueueOk (s.setWorker w pc').queued s.submitted _
    rw [State.queued_setWorker (hw ▸ hrest)]
    exact hs.queue.keep (by simp [ha]) (by simp [ha]) (by simp) (by simp)
  · exact carries_update_life hs.workers (fun u hu => Option.some.inj (hu.symm.trans (hw ▸ ht)))
      (fun v hv _ _ h => hv (by rw [ha] at h; cases h; rfl)) (by simp) (by simp [ht']) (by simp)

/-- A thread other than the worker of the task moves, or the destroyer does. -/
theorem Refines.bystander {s s' : State n m} {a : TaskId → Life n} (hs : Refines s a)
    (hw : s'.worker = s.worker) (hq : s'.queued = s.queued) (hk : s'.submitted = s.submitted)
    (htask : s'.task = s.task) : ∃ ts a', (lifecycle n).Path a ts a' ∧ Refines s' a' :=
  ⟨[], a, .nil a, hq ▸ hk ▸ hs.queue, hw ▸ hs.workers, htask ▸ hs.counted⟩

/-- A caller finds a task, and asks for it to be cancelled or not. -/
theorem Refines.mark {s : State n m} {a : TaskId → Life n} (hs : Refines s a) (τ : Thread n m)
    (ret : Ret) (q : Query) (p : TaskId) :
    ∃ ts a', (lifecycle n).Path a ts a' ∧ Refines ((s.setCall τ (.returned ret)).mark q p) a' := by
  refine ⟨[], a, .nil a, hs.queue, hs.workers, ?_⟩
  cases q with
  | cancel => exact counted_touch hs.counted rfl rfl rfl rfl
  | state => exact hs.counted

/-- A caller appends a new task, while no worker clears the queue. -/
theorem Refines.submit {s s' : State n m} {a : TaskId → Life n} {task : Task} (hs : Refines s a)
    (hw : s'.worker = s.worker) (hq : s'.queued = s.queued ++ [s.submitted])
    (hk : s'.submitted = s.submitted + 1) (htask : s'.task = update s.task s.submitted task)
    (hcount : Counted task (.waiting : Life n)) :
    ∃ ts a', (lifecycle n).Path a ts a' ∧ Refines s' a' := by
  have ha : a s.submitted = .absent := (hs.queue.absent _).2 (Nat.le_refl _)
  have hnext : (a s.submitted).Next .waiting := ha ▸ .submit
  refine ⟨[s.submitted], _, lifecycle_path hnext, ?_, ?_, ?_⟩
  · rw [hq, hk]
    exact hs.queue.submit
  · rw [hw]
    exact carries_submit hs.workers ha
  · rw [htask]
    exact counted_update hs.counted hcount

/-- Waking workers moves no task. -/
theorem Carries.wake {w : Fin n} {pc : WorkerPc} {a : TaskId → Life n} (h : Carries w pc a) :
    Carries w pc.wake a :=
  ⟨fun t ht => by simpa using h.stage t (by simpa using ht), fun t b f ha => by
    simpa using h.held t b f ha⟩

/-- Each step of the executor is, for the tasks, at most one step of one life. -/
theorem refines_step {s s' : State n m} {l : Label n m} {a : TaskId → Life n} (hc : Control s)
    (hs : Refines s a) (h : Step s l s') :
    ∃ ts a', (lifecycle n).Path a ts a' ∧ Refines s' a' := by
  have hhold : ∀ {w pc}, s.worker w = pc → pc.holds = true → s.holder = some w :=
    fun hw h => (hc.holder _).2 (hw ▸ h)
  have hlife : ∀ {w pc t}, s.worker w = pc → pc.task? = some t → pc.Stage w (a t) :=
    fun hw ht => hw ▸ (hs.workers _).stage _ (hw ▸ ht)
  have hsame : ∀ {w pc pc'}, s.worker w = pc → pc.clearRest? = pc'.clearRest? →
      (s.setWorker w pc').queued = s.queued := fun hw h => State.queued_setWorker (hw ▸ h)
  cases h
  case pollLock w hw hl =>
    exact hs.stay hw rfl (by simp [State.queued, hl, WorkerPc.clearRest?]) rfl rfl rfl fun _ h => h
  case pollTake w t ts hw hp =>
    exact hs.take hw rfl (by simp [State.queued, hhold hw rfl, hw, WorkerPc.clearRest?, hp]) rfl rfl
      rfl rfl rfl
  case pollEmpty hw _ =>
    exact hs.stay hw rfl (hsame hw rfl) rfl rfl rfl fun _ h => h
  case pollNull w hw _ =>
    exact hs.stay hw rfl (by simp [State.queued, hhold hw rfl, hw, WorkerPc.clearRest?]) rfl rfl
      rfl fun _ h => h
  case pollAlive hw _ =>
    exact hs.stay hw rfl (hsame hw rfl) rfl rfl rfl fun _ h => h
  case condWait w hw =>
    exact hs.stay hw rfl (by simp [State.queued, hhold hw rfl, hw, WorkerPc.clearRest?]) rfl rfl
      rfl fun _ h => h
  case spurious hw =>
    exact hs.stay hw rfl (hsame hw rfl) rfl rfl rfl fun _ h => h
  case relock w hw hl =>
    exact hs.stay hw rfl (by simp [State.queued, hl, WorkerPc.clearRest?]) rfl rfl rfl fun _ h => h
  case checkAlive hw _ =>
    exact hs.stay hw rfl (hsame hw rfl) rfl rfl rfl fun _ h => h
  case checkDestroyed hw _ =>
    exact hs.stay hw rfl (hsame hw rfl) rfl rfl rfl fun _ h => h
  case pushActive t hw =>
    exact hs.stay hw rfl (hsame hw rfl) rfl rfl rfl fun _ h => h
  case runAction w t hw _ =>
    have ha : a t = .held w false false := hlife hw rfl
    have hcount : Counted (s.task t) (.held w false false : Life n) := ha ▸ hs.counted t
    have hnext : (a t).Next (.held w true false) := ha ▸ .act w
    exact hs.advance hw rfl rfl ha hnext
      ⟨by simp [hcount.actions, Life.actions], hcount.results, hcount.freed⟩ rfl rfl
  case skipAction hw _ =>
    exact hs.stay hw rfl (hsame hw rfl) rfl rfl rfl fun _ h => ⟨_, h⟩
  case actionReturn hw _ =>
    exact hs.stay hw rfl (hsame hw rfl) rfl rfl rfl fun _ h => ⟨_, h⟩
  case recheck hw =>
    exact hs.stay hw rfl (hsame hw rfl) rfl rfl rfl fun _ h => h
  case finalize w t result hw =>
    obtain ⟨b, ha⟩ := hlife hw rfl
    exact hs.finalize result hw rfl rfl ha ⟨b, rfl⟩ rfl
  case finalizerReturn hw _ =>
    exact hs.stay hw rfl (hsame hw rfl) rfl rfl rfl fun _ h => h
  case removeActive t hw =>
    exact hs.stay hw rfl (hsame hw rfl) rfl rfl rfl fun _ h => h
  case destroyTask hw => exact hs.release hw rfl rfl (hlife hw rfl) rfl
  case finalizeLast hw => exact hs.finalize ECANCELED hw rfl rfl (hlife hw rfl) ⟨false, rfl⟩ rfl
  case finalizerLastReturn hw _ =>
    exact hs.stay hw rfl (hsame hw rfl) rfl rfl rfl fun _ h => h
  case destroyLast hw => exact hs.release hw rfl rfl (hlife hw rfl) rfl
  case clearLock w hw hl =>
    exact hs.stay hw rfl (by simp [State.queued, hl, WorkerPc.clearRest?]) rfl rfl rfl fun _ h => h
  case clearTake w t ts hw =>
    exact hs.take hw rfl (by simp [State.queued, hhold hw rfl, hw, WorkerPc.clearRest?]) rfl rfl
      rfl rfl rfl
  case clearFinalize hw => exact hs.finalize ECANCELED hw rfl rfl (hlife hw rfl) ⟨false, rfl⟩ rfl
  case clearReturn hw _ =>
    exact hs.stay hw rfl (hsame hw rfl) rfl rfl rfl fun _ h => h
  case clearDestroy hw => exact hs.release hw rfl rfl (hlife hw rfl) rfl
  case clearDone w hw =>
    exact hs.stay hw rfl (by simp [State.queued, hhold hw rfl, hw, WorkerPc.clearRest?]) rfl rfl
      rfl fun _ h => h
  case submitPush τ finalize addr hcall hl _ =>
    have hrest := clearRest?_of_canLock hc (by rw [hcall]; rfl) hl
    refine hs.submit rfl ?_ rfl rfl ⟨rfl, by cases finalize <;> rfl, rfl⟩
    rw [State.queued_eq_pending hrest]
    exact State.queued_eq_pending hrest
  case submitSignal w hcall hw =>
    exact hs.stay hw rfl (hsame hw rfl) rfl rfl rfl fun _ h => h
  case activeHit τ q h p _ _ => exact hs.mark τ _ q p
  case pendingHit τ q h p _ _ _ => exact hs.mark τ _ q p
  case destroyBroadcastPending =>
    refine ⟨[], a, .nil a, ?_, fun w => (hs.workers w).wake, hs.counted⟩
    have hq : State.queued { s with worker := fun w => (s.worker w).wake, destroyer := .join } =
        s.queued := by
      simp only [State.queued, WorkerPc.clearRest?_wake]
    rw [hq]; exact hs.queue
  all_goals exact hs.bystander rfl rfl rfl rfl

end CommonsC.Executor
