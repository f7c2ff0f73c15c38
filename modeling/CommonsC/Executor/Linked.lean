import CommonsC.Executor.Places
import CommonsC.LinkedList.Model

/-!
# CommonsC.Executor.Linked

The executor with its queues as they are in memory: two heads and the `prev`
and `next` of the tasks, which both queues share.  `queue_poll` unlinks the
head under `pending.lock` and resets the links of the task after it has
released the lock; `tasks_append` goes to the end of a list, `tasks_remove`
trusts the links of the task, `tasks_find_by` and `tasks_free` follow `next`.

`LinkedStep` takes nothing from lists of tasks: what a step does depends on the
heads and links only.  `linked_simulates` shows that it nevertheless takes the
steps of the executor of `CommonsC.Executor.Model`, whose queues are lists.
-/

namespace CommonsC.Executor

open Function (update)
open LinkedList (Links Linked Forward SameOff)

variable {n m : Nat}

/-! ## The executor in memory -/

/-- What `queue_poll` has still to do to the task it took: `task->prev = NULL`
and `task->next = NULL`, or only the latter. -/
inductive ResetPc
  | prev | next
  deriving DecidableEq

/-- The executor with linked queues, and a record of the tasks that went through
the pending queue. -/
structure LinkedState (n m : Nat) where
  /-- All but the queues: there are no tasks in its lists. -/
  core : State n m
  links : Links TaskId
  pendingHead : Option TaskId
  activeHead : Option TaskId
  /-- `head` in `tasks_free`. -/
  freeHead : Fin n → Option TaskId
  resetting : Fin n → Option ResetPc
  /-- The tasks that `executor_submit` appended, in order. -/
  appended : List TaskId
  /-- The tasks that `queue_poll` took, in order. -/
  taken : List TaskId
  /-- A `queue_clear` was completed. -/
  cleared : Bool

/-- The next step of the worker is one on a queue. -/
def WorkerPc.onQueue : WorkerPc → Bool
  | .pollHead | .pushActive _ | .removeActive _ | .clear | .clearing _ => true
  | _ => false

/-- The next step of the call is one on a queue. -/
def CallPc.onQueue : CallPc → Bool
  | .submitPush _ | .scanActive _ _ | .scanPending _ _ => true
  | _ => false

/-- The step is not one on a queue. -/
def State.Quiet (s : State n m) : Label n m → Prop
  | .worker w => (s.worker w).onQueue = false
  | .call τ => (s.call τ).onQueue = false
  | _ => True

/-- `task_comparator` takes the task for that of the handle. -/
def State.comparesEqual (s : State n m) (h p : TaskId) : Bool :=
  taskComparator (s.task p).addr (s.task h).addr == 0

/-- `calloc` of a task. -/
def newNode (links : Links TaskId) (t : TaskId) : Links TaskId :=
  (links.setPrev t none).setNext t none

theorem newNode_sameOff (links : Links TaskId) (t : TaskId) :
    SameOff links (newNode links t) (· = t) :=
  fun _ hx => ⟨Function.update_of_ne hx _ _, Function.update_of_ne hx _ _⟩

/-- One step of the executor in memory. -/
inductive LinkedStep : LinkedState n m → Label n m → LinkedState n m → Prop
  -- everything but the queues
  | other {s : LinkedState n m} {l core} : s.core.Quiet l →
      (∀ w, l = .worker w → s.resetting w = none) → Step s.core l core →
      LinkedStep s l { s with core }
  -- `queue_poll`
  | pollTake {s : LinkedState n m} {w t} : s.core.worker w = .pollHead → s.pendingHead = some t →
      LinkedStep s (.worker w) { s with
        core := { s.core.setWorker w (.polled t) with holder := none }
        pendingHead := (s.links.unlinkHead t).1
        links := (s.links.unlinkHead t).2
        resetting := update s.resetting w (some .prev)
        taken := s.taken ++ [t] }
  | resetPrev {s : LinkedState n m} {w t} : s.core.worker w = .polled t →
      s.resetting w = some .prev →
      LinkedStep s (.worker w) { s with
        links := s.links.setPrev t none, resetting := update s.resetting w (some .next) }
  | resetNext {s : LinkedState n m} {w t} : s.core.worker w = .polled t →
      s.resetting w = some .next →
      LinkedStep s (.worker w) { s with
        links := s.links.setNext t none, resetting := update s.resetting w none }
  | pollEmpty {s : LinkedState n m} {w} : s.core.worker w = .pollHead → s.pendingHead = none →
      LinkedStep s (.worker w) { s with core := s.core.setWorker w .pollDestroyed }
  -- `queue_push(&executor->active, task)` and `queue_remove(&executor->active, task)`
  | pushActive {s : LinkedState n m} {w t head links} (fuel : Nat) :
      s.core.worker w = .pushActive t →
      s.links.append fuel s.activeHead t = some (head, links) →
      LinkedStep s (.worker w) { s with
        core := s.core.setWorker w (.readCancelled t), activeHead := head, links }
  | removeActive {s : LinkedState n m} {w t} : s.core.worker w = .removeActive t →
      LinkedStep s (.worker w) { s with
        core := s.core.setWorker w (.destroyTask t)
        activeHead := (s.links.remove s.activeHead t).1
        links := (s.links.remove s.activeHead t).2 }
  -- `queue_clear(&executor->pending)`
  | clearLock {s : LinkedState n m} {w} : s.core.worker w = .clear → s.core.holder = none →
      LinkedStep s (.worker w) { s with
        core := { s.core.setWorker w (.clearing []) with holder := some w }
        freeHead := update s.freeHead w s.pendingHead }
  | clearTake {s : LinkedState n m} {w t} : s.core.worker w = .clearing [] →
      s.freeHead w = some t →
      LinkedStep s (.worker w) { s with
        core := s.core.setWorker w (.clearFinalize t [])
        freeHead := update s.freeHead w (s.links.next t) }
  | clearDone {s : LinkedState n m} {w} : s.core.worker w = .clearing [] → s.freeHead w = none →
      LinkedStep s (.worker w) { s with
        core := { s.core.setWorker w .done with holder := none }
        pendingHead := none, cleared := true }
  -- `queue_push(&executor->pending, task)`
  | submitPush {s : LinkedState n m} {τ finalize head links} (fuel : Nat) (addr : BitVec 64) :
      s.core.call τ = .submitPush finalize → s.core.CanLock τ →
      (∀ t < s.core.submitted, (s.core.task t).freed = false → (s.core.task t).addr ≠ addr) →
      (newNode s.links s.core.submitted).append fuel s.pendingHead s.core.submitted =
        some (head, links) →
      LinkedStep s (.call τ) { s with
        core := { (s.core.setCall τ (.submitSignal s.core.submitted)).setTask s.core.submitted
            (taskCreate addr finalize) with submitted := s.core.submitted + 1 }
        pendingHead := head, links, appended := s.appended ++ [s.core.submitted] }
  -- `queue_cancel_task` and `queue_is_task_cancelled`
  | activeHit {s : LinkedState n m} {τ q h p} (fuel : Nat) : s.core.call τ = .scanActive q h →
      s.links.findBy (s.core.comparesEqual h) fuel s.activeHead = some (some p) →
      LinkedStep s (.call τ) { s with
        core := (s.core.setCall τ (.returned (s.core.hit q h p .active))).mark q p }
  | activeMiss {s : LinkedState n m} {τ q h} (fuel : Nat) : s.core.call τ = .scanActive q h →
      s.links.findBy (s.core.comparesEqual h) fuel s.activeHead = some none →
      LinkedStep s (.call τ) { s with core := s.core.setCall τ (.scanPending q h) }
  | pendingHit {s : LinkedState n m} {τ q h p} (fuel : Nat) : s.core.call τ = .scanPending q h →
      s.core.CanLock τ →
      s.links.findBy (s.core.comparesEqual h) fuel s.pendingHead = some (some p) →
      LinkedStep s (.call τ) { s with
        core := (s.core.setCall τ (.returned (s.core.hit q h p .pending))).mark q p }
  | pendingMiss {s : LinkedState n m} {τ q h} (fuel : Nat) : s.core.call τ = .scanPending q h →
      s.core.CanLock τ →
      s.links.findBy (s.core.comparesEqual h) fuel s.pendingHead = some none →
      LinkedStep s (.call τ) { s with core := s.core.setCall τ (.returned (q.miss h)) }

/-- The state `executor_create` leaves. -/
def linkedCreate (n m : Nat) : LinkedState n m where
  core := executorCreate n m
  links := ⟨fun _ => none, fun _ => none⟩
  pendingHead := none
  activeHead := none
  freeHead _ := none
  resetting _ := none
  appended := []
  taken := []
  cleared := false

/-- The executor in memory as a transition system. -/
def linked (n m : Nat) : TransitionSystem (LinkedState n m) (Label n m) where
  init s := s = linkedCreate n m
  step := LinkedStep

/-! ## Steps that are not on a queue -/

/-- The program counter without the list that `queue_clear` goes through. -/
def WorkerPc.forget : WorkerPc → WorkerPc
  | .clearing _ => .clearing []
  | .clearFinalize t _ => .clearFinalize t []
  | .clearFinalizer t _ => .clearFinalizer t []
  | .clearDestroy t _ => .clearDestroy t []
  | pc => pc

/-- The state without its lists of tasks. -/
def State.forget (s : State n m) : State n m :=
  { s with pending := [], active := [], worker := fun w => (s.worker w).forget }

/-- Only the program counters of `queue_clear` have something to forget. -/
theorem WorkerPc.eq_of_forget {pc pc' : WorkerPc} (h : pc.forget = pc')
    (hpc : pc'.clearRest? = none) : pc = pc' := by
  subst h
  cases pc <;> first
    | rfl
    | cases hpc

theorem WorkerPc.of_forget_clearing {pc : WorkerPc} {ts : List TaskId}
    (h : pc.forget = .clearing ts) : ∃ us, pc = .clearing us := by
  cases pc <;> cases h
  exact ⟨_, rfl⟩

theorem WorkerPc.of_forget_clearFinalize {pc : WorkerPc} {t : TaskId} {ts : List TaskId}
    (h : pc.forget = .clearFinalize t ts) : ∃ us, pc = .clearFinalize t us ∧ ts = [] := by
  cases pc <;> cases h
  exact ⟨_, rfl, rfl⟩

theorem WorkerPc.of_forget_clearFinalizer {pc : WorkerPc} {t : TaskId} {ts : List TaskId}
    (h : pc.forget = .clearFinalizer t ts) : ∃ us, pc = .clearFinalizer t us ∧ ts = [] := by
  cases pc <;> cases h
  exact ⟨_, rfl, rfl⟩

theorem WorkerPc.of_forget_clearDestroy {pc : WorkerPc} {t : TaskId} {ts : List TaskId}
    (h : pc.forget = .clearDestroy t ts) : ∃ us, pc = .clearDestroy t us ∧ ts = [] := by
  cases pc <;> cases h
  exact ⟨_, rfl, rfl⟩

theorem forget_update (f : Fin n → WorkerPc) (w : Fin n) (pc : WorkerPc) :
    (fun v => (update f w pc v).forget) = update (fun v => (f v).forget) w pc.forget := by
  funext v
  by_cases hv : v = w
  · subst hv; simp
  · simp [Function.update_of_ne hv]

/-- A state without lists, by its program counters and the rest. -/
theorem eq_forget {core a : State n m} (hworker : (fun v => (a.worker v).forget) = core.worker)
    (hrest : core = { a.forget with worker := core.worker }) : core = a.forget := by
  rw [hrest, ← hworker]
  rfl

@[simp] theorem WorkerPc.onQueue_forget (pc : WorkerPc) : pc.forget.onQueue = pc.onQueue := by
  cases pc <;> rfl

/-- Whether a worker is in a callback does not depend on the lists. -/
theorem inCallback_forget {a : State n m} {w : Fin n} :
    a.forget.InCallback w ↔ a.InCallback w := by
  have hw : a.forget.worker w = (a.worker w).forget := rfl
  unfold State.InCallback
  rw [hw]
  cases a.worker w <;> exact Iff.rfl

theorem mayCall_of_forget {a : State n m} {τ : Thread n m} (h : a.forget.MayCall τ) :
    a.MayCall τ := by
  obtain ⟨hbusy, hplace⟩ := h
  refine ⟨hbusy, ?_⟩
  cases τ with
  | outside c => exact hplace
  | worker w => exact inCallback_forget.1 hplace

/-- Steps on a queue are not quiet. -/
theorem not_quiet_of_worker {a : State n m} {w : Fin n} {pc : WorkerPc} (h : a.worker w = pc)
    (hpc : pc.onQueue = true) : ¬a.Quiet (.worker w) := by
  simp [State.Quiet, h, hpc]

theorem not_quiet_of_call {a : State n m} {τ : Thread n m} {pc : CallPc} (h : a.call τ = pc)
    (hpc : pc.onQueue = true) : ¬a.Quiet (.call τ) := by
  simp [State.Quiet, h, hpc]

/-- A step that is not on a queue is one of the executor with lists. -/
theorem quiet_lift {a : State n m} {l : Label n m} {core : State n m} (hq : a.forget.Quiet l)
    (h : Step a.forget l core) : ∃ a', Step a l a' ∧ core = a'.forget := by
  have hpc : ∀ {w pc}, a.forget.worker w = pc → pc.clearRest? = none → a.worker w = pc :=
    fun h hpc => WorkerPc.eq_of_forget h hpc
  cases h
  case pollLock hw hl => exact ⟨_, .pollLock (hpc hw rfl) hl, eq_forget (forget_update ..) rfl⟩
  case pollNull hw hd => exact ⟨_, .pollNull (hpc hw rfl) hd, eq_forget (forget_update ..) rfl⟩
  case pollAlive hw hd => exact ⟨_, .pollAlive (hpc hw rfl) hd, eq_forget (forget_update ..) rfl⟩
  case condWait hw => exact ⟨_, .condWait (hpc hw rfl), eq_forget (forget_update ..) rfl⟩
  case spurious hw => exact ⟨_, .spurious (hpc hw rfl), eq_forget (forget_update ..) rfl⟩
  case relock hw hl => exact ⟨_, .relock (hpc hw rfl) hl, eq_forget (forget_update ..) rfl⟩
  case checkAlive hw hd => exact ⟨_, .checkAlive (hpc hw rfl) hd, eq_forget (forget_update ..) rfl⟩
  case checkDestroyed hw hd =>
    exact ⟨_, .checkDestroyed (hpc hw rfl) hd, eq_forget (forget_update ..) rfl⟩
  case runAction hw hc => exact ⟨_, .runAction (hpc hw rfl) hc, eq_forget (forget_update ..) rfl⟩
  case skipAction hw hc => exact ⟨_, .skipAction (hpc hw rfl) hc, eq_forget (forget_update ..) rfl⟩
  case actionReturn r hw hc =>
    exact ⟨_, .actionReturn r (hpc hw rfl) hc, eq_forget (forget_update ..) rfl⟩
  case recheck hw => exact ⟨_, .recheck (hpc hw rfl), eq_forget (forget_update ..) rfl⟩
  case finalize hw => exact ⟨_, .finalize (hpc hw rfl), eq_forget (forget_update ..) rfl⟩
  case finalizerReturn hw hc =>
    exact ⟨_, .finalizerReturn (hpc hw rfl) hc, eq_forget (forget_update ..) rfl⟩
  case destroyTask hw => exact ⟨_, .destroyTask (hpc hw rfl), eq_forget (forget_update ..) rfl⟩
  case finalizeLast hw => exact ⟨_, .finalizeLast (hpc hw rfl), eq_forget (forget_update ..) rfl⟩
  case finalizerLastReturn hw hc =>
    exact ⟨_, .finalizerLastReturn (hpc hw rfl) hc, eq_forget (forget_update ..) rfl⟩
  case destroyLast hw => exact ⟨_, .destroyLast (hpc hw rfl), eq_forget (forget_update ..) rfl⟩
  case clearFinalize w t ts hw =>
    obtain ⟨us, hus, rfl⟩ := WorkerPc.of_forget_clearFinalize hw
    exact ⟨_, .clearFinalize hus, eq_forget (forget_update ..) rfl⟩
  case clearReturn w t ts hw hc =>
    obtain ⟨us, hus, rfl⟩ := WorkerPc.of_forget_clearFinalizer hw
    exact ⟨_, .clearReturn hus hc, eq_forget (forget_update ..) rfl⟩
  case clearDestroy w t ts hw =>
    obtain ⟨us, hus, rfl⟩ := WorkerPc.of_forget_clearDestroy hw
    exact ⟨_, .clearDestroy hus, eq_forget (forget_update ..) rfl⟩
  case submitRefused hm hd => exact ⟨_, .submitRefused (mayCall_of_forget hm) hd, rfl⟩
  case submitAccepted f hm hd => exact ⟨_, .submitAccepted f (mayCall_of_forget hm) hd, rfl⟩
  case submitSignal w hc hw =>
    exact ⟨_, .submitSignal w hc (hpc hw rfl), eq_forget (forget_update ..) rfl⟩
  case submitSignalLost hc hw =>
    exact ⟨_, .submitSignalLost hc fun w h => hw w (by simp [State.forget, h, WorkerPc.forget]),
      rfl⟩
  case queryRefused q h hm hr => exact ⟨_, .queryRefused q h (mayCall_of_forget hm) hr, rfl⟩
  case queryAccepted q h hm hd hlt =>
    exact ⟨_, .queryAccepted q h (mayCall_of_forget hm) hd hlt, rfl⟩
  case destroySet hb hc => exact ⟨_, .destroySet hb hc, rfl⟩
  case destroyBroadcastActive hb => exact ⟨_, .destroyBroadcastActive hb, rfl⟩
  case destroyBroadcastPending hb =>
    have hwake : ∀ pc : WorkerPc, pc.wake.forget = pc.forget.wake := fun pc => by
      cases pc <;> rfl
    exact ⟨_, .destroyBroadcastPending hb, eq_forget (funext fun w => hwake _) rfl⟩
  case destroyJoin hb hw => exact ⟨_, .destroyJoin hb fun w => hpc (hw w) rfl, rfl⟩
  all_goals first
    | exact absurd hq (not_quiet_of_worker ‹_› rfl)
    | exact absurd hq (not_quiet_of_call ‹_› rfl)

theorem quiet_forget {a : State n m} {l : Label n m} : a.forget.Quiet l ↔ a.Quiet l := by
  cases l <;> simp [State.Quiet, State.forget]

/-- The task that is not in the active queue yet. -/
def WorkerPc.fresh? : WorkerPc → Option TaskId
  | .polled t | .pushActive t => some t
  | _ => none

@[simp] theorem WorkerPc.fresh?_wake (pc : WorkerPc) : pc.wake.fresh? = pc.fresh? := by
  cases pc <;> rfl

theorem WorkerPc.transit?_of_fresh? {pc : WorkerPc} {t : TaskId} (h : pc.fresh? = some t) :
    pc.transit? = some t := by
  cases pc <;> cases h <;> rfl

/-- A step that is not on a queue leaves the queues alone. -/
theorem quiet_queues {a a' : State n m} {l : Label n m} (hq : a.Quiet l) (h : Step a l a') :
    a'.pending = a.pending ∧ a'.active = a.active ∧ a'.submitted = a.submitted := by
  cases h
  all_goals first
    | exact ⟨rfl, rfl, rfl⟩
    | exact absurd hq (not_quiet_of_worker ‹_› rfl)
    | exact absurd hq (not_quiet_of_call ‹_› rfl)

/-- It moves no task of a worker, but for the loop that the task may leave. -/
theorem quiet_workers {a a' : State n m} {l : Label n m} (hq : a.Quiet l) (h : Step a l a')
    (w : Fin n) :
    (a'.worker w).clearRest? = (a.worker w).clearRest? ∧
      (∀ t, (a'.worker w).fresh? = some t → (a.worker w).fresh? = some t) ∧
      (l ≠ .worker w → ∀ t, a.worker w = .polled t → a'.worker w = .polled t) := by
  -- The steps of a worker, which moves that worker only.
  have hset : ∀ {v pc}, pc.clearRest? = (a.worker v).clearRest? →
      (pc.fresh? = none ∨ pc.fresh? = (a.worker v).fresh?) →
      (l = .worker v ∨ ∀ t, a.worker v ≠ .polled t) →
      (update a.worker v pc w).clearRest? = (a.worker w).clearRest? ∧
        (∀ t, (update a.worker v pc w).fresh? = some t → (a.worker w).fresh? = some t) ∧
        (l ≠ .worker w → ∀ t, a.worker w = .polled t → update a.worker v pc w = .polled t) := by
    intro v pc hrest hfresh hpolled
    refine (Function.forall_update_iff _ fun w (pc : WorkerPc) =>
      pc.clearRest? = (a.worker w).clearRest? ∧
      (∀ t, pc.fresh? = some t → (a.worker w).fresh? = some t) ∧
        (l ≠ .worker w → ∀ t, a.worker w = .polled t → pc = .polled t)).2
      ⟨⟨hrest, fun t ht => ?_, fun hl t ht => ?_⟩, fun _ _ =>
        ⟨rfl, fun _ h => h, fun _ _ h => h⟩⟩ w
    · rcases hfresh with hfresh | hfresh
      · rw [hfresh] at ht; cases ht
      · rw [← hfresh, ht]
    · exact absurd ht (hpolled.resolve_left hl t)
  cases h
  case destroyBroadcastPending =>
    refine ⟨WorkerPc.clearRest?_wake _, fun t ht => ?_, fun _ t ht => ?_⟩
    · rwa [← WorkerPc.fresh?_wake]
    · change (a.worker w).wake = .polled t
      rw [ht]; rfl
  all_goals first
    | exact ⟨rfl, fun _ h => h, fun _ _ h => h⟩
    | exact absurd hq (not_quiet_of_worker ‹_› rfl)
    | exact hset (by rw [‹a.worker _ = _›]; rfl) (.inl rfl) (.inl rfl)
    | exact hset (by rw [‹a.worker _ = _›]; rfl) (.inr (by rw [‹a.worker _ = _›]; rfl)) (.inl rfl)
    | exact hset (by rw [‹a.worker _ = _›]; rfl) (.inl rfl) (.inr (by simp [‹a.worker _ = _›]))

/-! ## What the memory represents -/

/-- What a worker has in hand is in order: the rest of the list that it frees,
and the links of a task that is not in the active queue yet, once reset. -/
structure InHand (links : Links TaskId) (q : Option TaskId) (r : Option ResetPc)
    (pc : WorkerPc) : Prop where
  free : ∀ ts, pc.clearRest? = some ts → Forward links q ts
  polled : r ≠ none → ∃ t, pc = .polled t
  prev : ∀ t, pc.fresh? = some t → r ≠ some .prev → links.prev t = none
  next : ∀ t, pc.fresh? = some t → r = none → links.next t = none

/-- A change of other links. -/
theorem InHand.sameOff {links links' : Links TaskId} {q : Option TaskId} {r : Option ResetPc}
    {pc : WorkerPc} {S : TaskId → Prop} (h : InHand links q r pc) (hsame : SameOff links links' S)
    (hrest : ∀ ts, pc.clearRest? = some ts → ∀ t ∈ ts, ¬S t)
    (hfresh : ∀ t, pc.fresh? = some t → ¬S t) : InHand links' q r pc where
  free ts hts := (h.free ts hts).sameOff hsame (hrest ts hts)
  polled := h.polled
  prev t ht hr := ((hsame t (hfresh t ht)).1).trans (h.prev t ht hr)
  next t ht hr := ((hsame t (hfresh t ht)).2).trans (h.next t ht hr)

/-- A worker that neither clears the queue nor has a fresh task has nothing in
hand. -/
theorem InHand.idle {links : Links TaskId} {q : Option TaskId} {pc : WorkerPc}
    (hrest : pc.clearRest? = none) (hfresh : pc.fresh? = none) : InHand links q none pc where
  free ts hts := by rw [hrest] at hts; cases hts
  polled h := absurd rfl h
  prev t ht := by rw [hfresh] at ht; cases ht
  next t ht := by rw [hfresh] at ht; cases ht

/-- The heads and links are those of the queues of `a`, and the record is that of
a run to `a`. -/
structure Represents (s : LinkedState n m) (a : State n m) : Prop where
  reachable : (system n m).Reachable a
  core : s.core = a.forget
  pending : Linked s.links s.pendingHead a.pending
  active : Linked s.links s.activeHead a.active
  inHand : ∀ w, InHand s.links (s.freeHead w) (s.resetting w) (a.worker w)
  appended : s.appended = List.range a.submitted
  order : (s.taken ++ a.pending).Sublist s.appended
  untilCleared : s.cleared = false → s.taken ++ a.pending = s.appended

section Represents

variable {s : LinkedState n m} {a : State n m} {w : Fin n} {t : TaskId}

/-- The program counter of a worker, but for the list it frees. -/
theorem Represents.worker (hs : Represents s a) {pc : WorkerPc} (hw : s.core.worker w = pc)
    (hpc : pc.clearRest? = none) : a.worker w = pc := by
  rw [hs.core] at hw
  exact WorkerPc.eq_of_forget hw hpc

/-- A worker with a fresh task it need not reset. -/
theorem Represents.resetting_of_ne (hs : Represents s a) (hw : ∀ t, a.worker w ≠ .polled t) :
    s.resetting w = none := by
  by_contra hr
  obtain ⟨t, ht⟩ := (hs.inHand w).polled hr
  exact hw t ht

/-- A worker at work on the pending queue is the only one. -/
theorem Represents.not_clearing (hs : Represents s a) (hholds : (a.worker w).holds = true)
    (hrest : (a.worker w).clearRest? = none) (v : Fin n) : (a.worker v).clearRest? = none := by
  have hc := control_of_reachable hs.reachable
  cases h : (a.worker v).clearRest? with
  | none => rfl
  | some ts =>
      obtain rfl := hc.holds_unique (WorkerPc.of_clearRest? h).1 hholds
      rw [hrest] at h
      cases h

/-- A fresh task is in neither queue, and on the hands of one worker. -/
theorem Represents.fresh (hs : Represents s a) (hw : (a.worker w).fresh? = some t) :
    t ∉ a.pending ∧ t ∉ a.active ∧ ∀ v, (a.worker v).fresh? = some t → v = w := by
  obtain ⟨hpending, hactive, hunique⟩ := places_disjoint hs.reachable (t := t)
  have htransit := WorkerPc.transit?_of_fresh? hw
  exact ⟨fun h => (hpending h).2 w htransit, fun h => hactive h w htransit,
    fun v hv => hunique v w (WorkerPc.transit?_of_fresh? hv) htransit⟩

/-- A step that moves one worker and changes links that no other worker has in
hand. -/
theorem Represents.others (hs : Represents s a) {links' : Links TaskId} {S : TaskId → Prop}
    (hsame : SameOff s.links links' S)
    (hrest : ∀ v, v ≠ w → ∀ ts, (a.worker v).clearRest? = some ts → ∀ t ∈ ts, ¬S t)
    (hfresh : ∀ v, v ≠ w → ∀ t, (a.worker v).fresh? = some t → ¬S t)
    {pc : WorkerPc} {q' : Fin n → Option TaskId} {r' : Fin n → Option ResetPc}
    {q : Option TaskId} {r : Option ResetPc} (hw : InHand links' q r pc)
    (hqw : q' w = q) (hrw : r' w = r) (hq : ∀ v, v ≠ w → q' v = s.freeHead v)
    (hr : ∀ v, v ≠ w → r' v = s.resetting v) (v : Fin n) :
    InHand links' (q' v) (r' v) (update a.worker w pc v) := by
  by_cases hv : v = w
  · subst hv
    rw [Function.update_self, hqw, hrw]
    exact hw
  · rw [Function.update_of_ne hv, hq v hv, hr v hv]
    exact (hs.inHand v).sameOff hsame (hrest v hv) (hfresh v hv)

/-- A step that moves one worker and changes no links. -/
theorem Represents.move (hs : Represents s a) {pc : WorkerPc} {q' : Fin n → Option TaskId}
    {q : Option TaskId} (hw : InHand s.links q (s.resetting w) pc) (hqw : q' w = q)
    (hq : ∀ v, v ≠ w → q' v = s.freeHead v) (v : Fin n) :
    InHand s.links (q' v) (s.resetting v) (update a.worker w pc v) :=
  hs.others (S := fun _ => False) (fun _ _ => ⟨rfl, rfl⟩) (fun _ _ _ _ _ _ h => h)
    (fun _ _ _ _ h => h) hw hqw rfl hq (fun _ _ => rfl) v

/-! ## The steps -/

/-- The links are not touched, and the queues stay as they are. -/
theorem Represents.stay {a' core : State n m} {l : Label n m}
    (hs : Represents s a) (hstep : Step a l a') (hcore : core = a'.forget)
    (hqueues : a'.pending = a.pending ∧ a'.active = a.active ∧ a'.submitted = a.submitted)
    (hworkers : ∀ w, InHand s.links (s.freeHead w) (s.resetting w) (a'.worker w)) :
    Represents { s with core } a' := by
  obtain ⟨hp, hactive, hk⟩ := hqueues
  refine ⟨hs.reachable.step hstep, hcore, ?_, ?_, hworkers, ?_, ?_, ?_⟩
  · rw [hp]; exact hs.pending
  · rw [hactive]; exact hs.active
  · rw [hk]; exact hs.appended
  · rw [hp]; exact hs.order
  · rw [hp]; exact hs.untilCleared

/-- A step that is not on a queue. -/
theorem Represents.other {l : Label n m} {core : State n m} (hs : Represents s a)
    (hq : s.core.Quiet l) (hl : ∀ w, l = .worker w → s.resetting w = none)
    (h : Step s.core l core) :
    ∃ ls a', (system n m).Path a ls a' ∧ Represents { s with core } a' := by
  rw [hs.core] at hq h
  obtain ⟨a', hstep, hcore⟩ := quiet_lift hq h
  have hq := quiet_forget.1 hq
  refine ⟨_, a', .cons hstep (.nil a'), hs.stay hstep hcore (quiet_queues hq hstep) fun w => ?_⟩
  obtain ⟨hrest, hfresh, hpolled⟩ := quiet_workers hq hstep w
  have hold := hs.inHand w
  refine ⟨fun ts hts => hold.free ts (hrest ▸ hts), fun hr => ?_,
    fun t ht => hold.prev t (hfresh t ht), fun t ht => hold.next t (hfresh t ht)⟩
  obtain ⟨t, ht⟩ := hold.polled hr
  exact ⟨t, hpolled (fun h => hr (hl w h)) t ht⟩

/-- `queue_poll` takes the task at the head. -/
theorem Represents.pollTake (hs : Represents s a) (hw : s.core.worker w = .pollHead)
    (hhead : s.pendingHead = some t) :
    ∃ ls a', (system n m).Path a ls a' ∧
      Represents { s with
        core := { s.core.setWorker w (.polled t) with holder := none }
        pendingHead := (s.links.unlinkHead t).1
        links := (s.links.unlinkHead t).2
        resetting := update s.resetting w (some .prev)
        taken := s.taken ++ [t] } a' := by
  have hw := hs.worker hw rfl
  have hlinked := hs.pending
  obtain ⟨ts, hp⟩ : ∃ ts, a.pending = t :: ts := by
    rw [hhead] at hlinked
    cases hp : a.pending with
    | nil => rw [hp] at hlinked; cases hlinked
    | cons u ts =>
        rw [hp] at hlinked
        cases hlinked.1
        exact ⟨ts, rfl⟩
  rw [hp] at hlinked
  obtain ⟨hlinked, hsame⟩ := LinkedList.unlinkHead_linked hlinked
  have hmem : ∀ u ∈ ts, u ∈ a.pending := fun u hu => by rw [hp]; exact List.mem_cons_of_mem t hu
  have hclear := hs.not_clearing (w := w) (by rw [hw]; rfl) (by rw [hw]; rfl)
  have hstep : Step a (.worker w) _ := .pollTake hw hp
  refine ⟨_, _, .cons hstep (.nil _), hs.reachable.step hstep, ?_, hlinked, ?_, ?_, hs.appended,
    ?_, fun hc => ?_⟩
  · rw [hs.core]
    exact eq_forget (forget_update ..) rfl
  · exact hs.active.sameOff hsame fun u hu hmem' =>
      ((places_disjoint hs.reachable).1 (hmem u hmem')).1 hu
  · have hhand : InHand (s.links.unlinkHead t).2 (s.freeHead w) (some .prev) (.polled t) :=
      ⟨nofun, fun _ => ⟨t, rfl⟩, fun _ _ h => absurd rfl h, nofun⟩
    refine hs.others hsame (fun v _ us hus => ?_) (fun v _ u hu hmem' => ?_) hhand rfl
      (Function.update_self ..) (fun _ _ => rfl) (fun v hv => Function.update_of_ne hv _ _)
    · rw [hclear v] at hus; cases hus
    · exact (hs.fresh hu).1 (hmem u hmem')
  · have horder := hs.order
    rw [hp] at horder
    simpa using horder
  · have horder := hs.untilCleared hc
    rw [hp] at horder
    simpa using horder

/-- `queue_poll` touches the links of the task it took only. -/
theorem Represents.reset (hs : Represents s a) (hw : s.core.worker w = .polled t)
    {links : Links TaskId} {r : Option ResetPc} (hsame : SameOff s.links links (· = t))
    (hhand : InHand links (s.freeHead w) r (.polled t)) :
    Represents { s with links, resetting := update s.resetting w r } a := by
  have hw := hs.worker hw rfl
  obtain ⟨hpending, hactive, honly⟩ := hs.fresh (w := w) (by rw [hw]; rfl)
  have hall : ∀ v, InHand links (s.freeHead v) (update s.resetting w r v)
      (update a.worker w (.polled t) v) := by
    refine hs.others hsame (fun v _ us hus u hu hut => ?_)
      (fun v hv u hu hut => hv (honly v (hut ▸ hu))) hhand rfl (Function.update_self ..)
      (fun _ _ => rfl) (fun v hv => Function.update_of_ne hv _ _)
    exact hpending ((places_of_reachable hs.reachable).rest v us hus (hut ▸ hu))
  refine ⟨hs.reachable, hs.core, ?_, ?_, ?_, hs.appended, hs.order, hs.untilCleared⟩
  · exact hs.pending.sameOff hsame fun u hu hut => hpending (hut ▸ hu)
  · exact hs.active.sameOff hsame fun u hu hut => hactive (hut ▸ hu)
  · rwa [← hw, Function.update_eq_self] at hall

theorem Represents.resetPrev (hs : Represents s a) (hw : s.core.worker w = .polled t) :
    Represents { s with
      links := s.links.setPrev t none, resetting := update s.resetting w (some .next) } a := by
  refine hs.reset hw (LinkedList.setPrev_sameOff _ _ _) ⟨nofun, fun _ => ⟨t, rfl⟩, fun u hu _ => ?_,
    nofun⟩
  cases hu
  exact Function.update_self ..

theorem Represents.resetNext (hs : Represents s a) (hw : s.core.worker w = .polled t)
    (hr : s.resetting w = some .next) :
    Represents { s with
      links := s.links.setNext t none, resetting := update s.resetting w none } a := by
  refine hs.reset hw (LinkedList.setNext_sameOff _ _ _) ⟨nofun, fun h => absurd rfl h,
    fun u hu _ => ?_, fun u hu _ => ?_⟩
  · have hw := hs.worker hw rfl
    exact (hs.inHand w).prev u (hw ▸ hu) (by simp [hr])
  · cases hu
    exact Function.update_self ..

/-- `queue_poll` finds the queue empty. -/
theorem Represents.pollEmpty (hs : Represents s a) (hw : s.core.worker w = .pollHead)
    (hhead : s.pendingHead = none) :
    ∃ ls a', (system n m).Path a ls a' ∧
      Represents { s with core := s.core.setWorker w .pollDestroyed } a' := by
  have hw := hs.worker hw rfl
  have hp : a.pending = [] := by
    have hlinked := hs.pending
    rw [hhead] at hlinked
    cases hp : a.pending with
    | nil => rfl
    | cons t ts => rw [hp] at hlinked; cases hlinked.1
  have hstep : Step a (.worker w) _ := .pollEmpty hw hp
  have hidle : InHand s.links (s.freeHead w) (s.resetting w) .pollDestroyed := by
    rw [hs.resetting_of_ne (w := w) (by simp [hw])]
    exact .idle rfl rfl
  have hcore : s.core.setWorker w .pollDestroyed = (a.setWorker w .pollDestroyed).forget := by
    rw [hs.core]
    exact eq_forget (forget_update ..) rfl
  exact ⟨_, _, .cons hstep (.nil _), hs.stay hstep hcore ⟨rfl, rfl, rfl⟩
    (hs.move hidle rfl fun _ _ => rfl)⟩

/-- `queue_push` appends the fresh task of a worker to the active queue. -/
theorem Represents.pushActive (hs : Represents s a) (hw : s.core.worker w = .pushActive t)
    {fuel : Nat} {head : Option TaskId} {links : Links TaskId}
    (hrun : s.links.append fuel s.activeHead t = some (head, links)) :
    ∃ ls a', (system n m).Path a ls a' ∧
      Represents { s with
        core := s.core.setWorker w (.readCancelled t), activeHead := head, links } a' := by
  have hw := hs.worker hw rfl
  have hr := hs.resetting_of_ne (w := w) (by simp [hw])
  have hfresh : (a.worker w).fresh? = some t := by rw [hw]; rfl
  obtain ⟨hpending, hactive, honly⟩ := hs.fresh hfresh
  obtain ⟨hlinked, hsame⟩ := LinkedList.append_linked hs.active
    ((hs.inHand w).prev t hfresh (by simp [hr])) ((hs.inHand w).next t hfresh hr) hactive hrun
  -- The pending queue is off the change.
  have hoff : ∀ u ∈ a.pending, ¬(u ∈ a.active ∨ u = t) := fun u hu h =>
    h.elim ((places_disjoint hs.reachable).1 hu).1 fun hut => hpending (hut ▸ hu)
  have hstep : Step a (.worker w) _ := .pushActive hw
  refine ⟨_, _, .cons hstep (.nil _), hs.reachable.step hstep, ?_, hs.pending.sameOff hsame hoff,
    hlinked, ?_, hs.appended, hs.order, hs.untilCleared⟩
  · rw [hs.core]
    exact eq_forget (forget_update ..) rfl
  · have hidle : InHand links (s.freeHead w) none (.readCancelled t) := .idle rfl rfl
    refine hs.others hsame (fun v _ us hus u hu => ?_) (fun v hv u hu h => ?_) hidle rfl hr
      (fun _ _ => rfl) (fun _ _ => rfl)
    · exact hoff u ((places_of_reachable hs.reachable).rest v us hus hu)
    · rcases h with h | h
      · exact (hs.fresh hu).2.1 h
      · exact hv (honly v (h ▸ hu))

/-- `queue_remove` removes the task of a worker from the active queue. -/
theorem Represents.removeActive (hs : Represents s a) (hw : s.core.worker w = .removeActive t) :
    ∃ ls a', (system n m).Path a ls a' ∧
      Represents { s with
        core := s.core.setWorker w (.destroyTask t)
        activeHead := (s.links.remove s.activeHead t).1
        links := (s.links.remove s.activeHead t).2 } a' := by
  have hw := hs.worker hw rfl
  have hr := hs.resetting_of_ne (w := w) (by simp [hw])
  have hmem : t ∈ a.active := inActive_of_reachable hs.reachable w t (by rw [hw]; rfl)
  obtain ⟨hlinked, hsame⟩ := LinkedList.remove_linked hs.active hmem
  have hoff : ∀ u ∈ a.pending, u ∉ a.active.erase t := fun u hu h =>
    ((places_disjoint hs.reachable).1 hu).1 (List.mem_of_mem_erase h)
  have hstep : Step a (.worker w) _ := .removeActive hw
  refine ⟨_, _, .cons hstep (.nil _), hs.reachable.step hstep, ?_, hs.pending.sameOff hsame hoff,
    hlinked, ?_, hs.appended, hs.order, hs.untilCleared⟩
  · rw [hs.core]
    exact eq_forget (forget_update ..) rfl
  · have hidle : InHand (s.links.remove s.activeHead t).2 (s.freeHead w) none (.destroyTask t) :=
      .idle rfl rfl
    refine hs.others hsame (fun v _ us hus u hu => ?_) (fun v _ u hu h => ?_) hidle rfl hr
      (fun _ _ => rfl) (fun _ _ => rfl)
    · exact hoff u ((places_of_reachable hs.reachable).rest v us hus hu)
    · exact (hs.fresh hu).2.1 (List.mem_of_mem_erase h)

/-- `queue_clear` begins with the list at the head. -/
theorem Represents.clearLock (hs : Represents s a) (hw : s.core.worker w = .clear)
    (hl : s.core.holder = none) :
    ∃ ls a', (system n m).Path a ls a' ∧
      Represents { s with
        core := { s.core.setWorker w (.clearing []) with holder := some w }
        freeHead := update s.freeHead w s.pendingHead } a' := by
  have hw := hs.worker hw rfl
  have hl : a.holder = none := by rw [hs.core] at hl; exact hl
  have hr := hs.resetting_of_ne (w := w) (by simp [hw])
  have hstep : Step a (.worker w) _ := .clearLock hw hl
  refine ⟨_, _, .cons hstep (.nil _), hs.reachable.step hstep, ?_, hs.pending, hs.active, ?_,
    hs.appended, hs.order, hs.untilCleared⟩
  · rw [hs.core]
    exact eq_forget (forget_update ..) rfl
  · have hhand : InHand s.links s.pendingHead (s.resetting w) (.clearing a.pending) := by
      rw [hr]
      refine ⟨fun ts hts => ?_, fun h => absurd rfl h, nofun, nofun⟩
      cases hts
      exact hs.pending.forward
    exact hs.move hhand (Function.update_self ..) fun v hv => Function.update_of_ne hv _ _

/-- What `tasks_free` has still to free. -/
theorem Represents.clearing (hs : Represents s a) (hw : s.core.worker w = .clearing []) :
    ∃ ts, a.worker w = .clearing ts ∧ Forward s.links (s.freeHead w) ts := by
  rw [hs.core] at hw
  obtain ⟨ts, hts⟩ := WorkerPc.of_forget_clearing hw
  exact ⟨ts, hts, (hs.inHand w).free ts (by rw [hts]; rfl)⟩

/-- `tasks_free` takes the next task. -/
theorem Represents.clearTake (hs : Represents s a) (hw : s.core.worker w = .clearing [])
    (hhead : s.freeHead w = some t) :
    ∃ ls a', (system n m).Path a ls a' ∧
      Represents { s with
        core := s.core.setWorker w (.clearFinalize t [])
        freeHead := update s.freeHead w (s.links.next t) } a' := by
  obtain ⟨ts, hw, hfree⟩ := hs.clearing hw
  have hr := hs.resetting_of_ne (w := w) (by simp [hw])
  rw [hhead] at hfree
  cases ts with
  | nil => cases hfree
  | cons u ts =>
      obtain ⟨htu, hfree⟩ := hfree
      cases htu
      have hstep : Step a (.worker w) _ := .clearTake hw
      refine ⟨_, _, .cons hstep (.nil _), hs.reachable.step hstep, ?_, hs.pending, hs.active, ?_,
        hs.appended, hs.order, hs.untilCleared⟩
      · rw [hs.core]
        exact eq_forget (forget_update ..) rfl
      · have hhand : InHand s.links (s.links.next t) (s.resetting w) (.clearFinalize t ts) := by
          rw [hr]
          refine ⟨fun us hus => ?_, fun h => absurd rfl h, nofun, nofun⟩
          cases hus
          exact hfree
        exact hs.move hhand (Function.update_self ..) fun v hv => Function.update_of_ne hv _ _

/-- `tasks_free` is through, and the queue is empty. -/
theorem Represents.clearDone (hs : Represents s a) (hw : s.core.worker w = .clearing [])
    (hhead : s.freeHead w = none) :
    ∃ ls a', (system n m).Path a ls a' ∧
      Represents { s with
        core := { s.core.setWorker w .done with holder := none }
        pendingHead := none, cleared := true } a' := by
  obtain ⟨ts, hw, hfree⟩ := hs.clearing hw
  have hr := hs.resetting_of_ne (w := w) (by simp [hw])
  rw [hhead] at hfree
  cases ts with
  | cons u ts => cases hfree.1
  | nil =>
      have hstep : Step a (.worker w) _ := .clearDone hw
      refine ⟨_, _, .cons hstep (.nil _), hs.reachable.step hstep, ?_, rfl, hs.active, ?_,
        hs.appended, ?_, nofun⟩
      · rw [hs.core]
        exact eq_forget (forget_update ..) rfl
      · have hidle : InHand s.links (s.freeHead w) (s.resetting w) .done := by
          rw [hr]
          exact .idle rfl rfl
        exact hs.move hidle rfl fun _ _ => rfl
      · rw [List.append_nil]
        exact (List.sublist_append_left _ _).trans hs.order

/-- The task that is submitted next is nowhere yet. -/
theorem Represents.new (hs : Represents s a) :
    s.core.submitted ∉ a.pending ∧ s.core.submitted ∉ a.active ∧
      ∀ w, (a.worker w).fresh? ≠ some s.core.submitted := by
  have hplaces := places_of_reachable hs.reachable
  obtain ⟨lives, hlives⟩ := exists_refines hs.reachable
  have hk : s.core.submitted = a.submitted := by rw [hs.core]; rfl
  rw [hk]
  refine ⟨fun h => Nat.lt_irrefl _ (hplaces.pendingKnown _ h), fun h => ?_, fun w hw => ?_⟩
  · obtain ⟨w, hw⟩ := hplaces.activeHeld _ h
    exact Nat.lt_irrefl _ (hlives.lt_submitted (WorkerPc.task?_of_active? hw))
  · have hloop := WorkerPc.loop?_of_transit? (WorkerPc.transit?_of_fresh? hw)
    exact Nat.lt_irrefl _ (hlives.lt_submitted (WorkerPc.task?_of_loop? hloop))

/-- `executor_submit` appends a new task to the pending queue. -/
theorem Represents.submitPush (hs : Represents s a) {τ : Thread n m} {finalize : Bool}
    (addr : BitVec 64) (hcall : s.core.call τ = .submitPush finalize) (hl : s.core.CanLock τ)
    (haddr : ∀ t < s.core.submitted, (s.core.task t).freed = false →
      (s.core.task t).addr ≠ addr)
    {fuel : Nat} {head : Option TaskId} {links : Links TaskId}
    (hrun : (newNode s.links s.core.submitted).append fuel s.pendingHead s.core.submitted =
      some (head, links)) :
    ∃ ls a', (system n m).Path a ls a' ∧
      Represents { s with
        core := { (s.core.setCall τ (.submitSignal s.core.submitted)).setTask s.core.submitted
            (taskCreate addr finalize) with submitted := s.core.submitted + 1 }
        pendingHead := head, links, appended := s.appended ++ [s.core.submitted] } a' := by
  have hk : s.core.submitted = a.submitted := by rw [hs.core]; rfl
  rw [hs.core] at hcall hl haddr
  have hcall : a.call τ = .submitPush finalize := hcall
  have hl : a.CanLock τ := hl
  obtain ⟨hpending, hactive, hfresh⟩ := hs.new
  have hclear := clearRest?_of_canLock (control_of_reachable hs.reachable)
    (by rw [hcall]; rfl) hl
  have hnew := newNode_sameOff s.links s.core.submitted
  obtain ⟨hlinked, hsame⟩ := LinkedList.append_linked
    (hs.pending.sameOff hnew fun u hu h => hpending (h ▸ hu)) (Function.update_self ..)
    (Function.update_self ..) hpending hrun
  have hsame : SameOff s.links links fun x => x ∈ a.pending ∨ x = s.core.submitted :=
    fun x hx => by
      obtain ⟨hp, hn⟩ := hsame x hx
      obtain ⟨hp', hn'⟩ := hnew x fun h => hx (.inr h)
      exact ⟨hp.trans hp', hn.trans hn'⟩
  have hstep : Step a (.call τ) _ := .submitPush addr hcall hl haddr
  refine ⟨_, _, .cons hstep (.nil _), hs.reachable.step hstep, ?_, ?_, ?_, fun w => ?_, ?_, ?_,
    fun hc => ?_⟩
  · rw [hs.core]
    rfl
  · rw [← hk]
    exact hlinked
  · exact hs.active.sameOff hsame fun u hu h =>
      h.elim (fun h => ((places_disjoint hs.reachable).1 h).1 hu) fun h => hactive (h ▸ hu)
  · refine (hs.inHand w).sameOff hsame (fun ts hts => ?_) fun u hu h => ?_
    · rw [hclear w] at hts; cases hts
    · exact h.elim (hs.fresh hu).1 fun h => hfresh w (h ▸ hu)
  · rw [hk]
    change s.appended ++ [a.submitted] = List.range (a.submitted + 1)
    rw [hs.appended, List.range_succ]
  · rw [hk]
    change (s.taken ++ (a.pending ++ [a.submitted])).Sublist (s.appended ++ [a.submitted])
    rw [← List.append_assoc]
    exact hs.order.append (List.Sublist.refl _)
  · rw [hk]
    change s.taken ++ (a.pending ++ [a.submitted]) = s.appended ++ [a.submitted]
    rw [← List.append_assoc, hs.untilCleared hc]

/-- A query takes a step of the executor with lists, since it finds the same. -/
theorem Represents.query (hs : Represents s a) {τ : Thread n m} {a' core : State n m}
    (hstep : Step a (.call τ) a') (hcore : core = a'.forget) (hworker : a'.worker = a.worker)
    (hqueues : a'.pending = a.pending ∧ a'.active = a.active ∧ a'.submitted = a.submitted) :
    ∃ ls a', (system n m).Path a ls a' ∧ Represents { s with core } a' :=
  ⟨_, a', .cons hstep (.nil a'), hs.stay hstep hcore hqueues fun w => hworker ▸ hs.inHand w⟩

/-- What `tasks_find_by` finds in the active queue. -/
theorem Represents.findActive (hs : Represents s a) {h : TaskId} {fuel : Nat} {r : Option TaskId}
    (hrun : s.links.findBy (s.core.comparesEqual h) fuel s.activeHead = some r) :
    a.tasksFindBy a.active h = r := by
  rw [hs.core] at hrun
  exact LinkedList.eq_of_findBy hs.active.forward hrun

/-- What `tasks_find_by` finds in the pending queue. -/
theorem Represents.findPending (hs : Represents s a) {h : TaskId} {fuel : Nat} {r : Option TaskId}
    (hrun : s.links.findBy (s.core.comparesEqual h) fuel s.pendingHead = some r) :
    a.tasksFindBy a.pending h = r := by
  rw [hs.core] at hrun
  exact LinkedList.eq_of_findBy hs.pending.forward hrun

end Represents

/-- The memory of a new executor. -/
theorem represents_linkedCreate (n m : Nat) :
    Represents (linkedCreate n m) (executorCreate n m) where
  reachable := .init rfl
  core := rfl
  pending := rfl
  active := rfl
  inHand _ := .idle rfl rfl
  appended := rfl
  order := .refl _
  untilCleared _ := rfl

/-- **The executor in memory refines the executor with lists.** -/
theorem linked_simulates (n m : Nat) :
    TransitionSystem.Simulation (linked n m) (system n m) Represents where
  init s hs := ⟨executorCreate n m, rfl, hs ▸ represents_linkedCreate n m⟩
  step s l s' a _ hs h := by
    cases h with
    | other hq hl h => exact hs.other hq hl h
    | pollTake hw hhead => exact hs.pollTake hw hhead
    | resetPrev hw hr => exact ⟨[], a, .nil a, hs.resetPrev hw⟩
    | resetNext hw hr => exact ⟨[], a, .nil a, hs.resetNext hw hr⟩
    | pollEmpty hw hhead => exact hs.pollEmpty hw hhead
    | pushActive fuel hw hrun => exact hs.pushActive hw hrun
    | removeActive hw => exact hs.removeActive hw
    | clearLock hw hl => exact hs.clearLock hw hl
    | clearTake hw hhead => exact hs.clearTake hw hhead
    | clearDone hw hhead => exact hs.clearDone hw hhead
    | submitPush fuel addr hcall hl haddr hrun => exact hs.submitPush addr hcall hl haddr hrun
    | activeHit fuel hcall hrun =>
        have hfind := hs.findActive hrun
        rw [hs.core] at hcall
        exact hs.query (.activeHit hcall hfind) (by rw [hs.core]; rfl) rfl ⟨rfl, rfl, rfl⟩
    | activeMiss fuel hcall hrun =>
        have hfind := hs.findActive hrun
        rw [hs.core] at hcall
        exact hs.query (.activeMiss hcall hfind) (by rw [hs.core]; rfl) rfl ⟨rfl, rfl, rfl⟩
    | pendingHit fuel hcall hl hrun =>
        have hfind := hs.findPending hrun
        rw [hs.core] at hcall hl
        exact hs.query (.pendingHit hcall hl hfind) (by rw [hs.core]; rfl) rfl ⟨rfl, rfl, rfl⟩
    | pendingMiss fuel hcall hl hrun =>
        have hfind := hs.findPending hrun
        rw [hs.core] at hcall hl
        exact hs.query (.pendingMiss hcall hl hfind) (by rw [hs.core]; rfl) rfl ⟨rfl, rfl, rfl⟩

end CommonsC.Executor
