import CommonsC.Executor.Finalization

/-!
# CommonsC.Executor.Visibility

What `executor_task_state` and `executor_cancel` see of a task that is still to
be finalized.  They scan the active and then the pending queue, while a worker
moves a task from the pending to the active queue, and the four steps are
locked one by one.  A query misses a live task when it scans the active queue
while the task is in neither, or when the task is polled between its two
scans.  `live_task_visible` shows that there is no other way.
-/

namespace CommonsC.Executor

variable {n m : Nat}

/-! ## The active queue -/

/-- The task of the worker that is in the active queue. -/
def WorkerPc.active? : WorkerPc → Option TaskId
  | .readCancelled t | .action t | .recheck t _ | .finalize t _ | .finalizer t
  | .removeActive t => some t
  | _ => none

@[simp] theorem WorkerPc.active?_wake (pc : WorkerPc) : pc.wake.active? = pc.active? := by
  cases pc <;> rfl

theorem WorkerPc.task?_of_active? {pc : WorkerPc} {t : TaskId} (h : pc.active? = some t) :
    pc.task? = some t := by
  cases pc <;> simp_all [active?, task?]

/-- A task that a worker put in the active queue is there until it removes it. -/
def InActive (s : State n m) : Prop := ∀ w t, (s.worker w).active? = some t → t ∈ s.active

/-- No two workers have the same task on their hands. -/
theorem Refines.worker_unique {s : State n m} {a : TaskId → Life n} (ha : Refines s a)
    {v w : Fin n} {t : TaskId} (hv : (s.worker v).task? = some t)
    (hw : (s.worker w).task? = some t) : v = w := by
  obtain ⟨_, _, hlife⟩ := (ha.workers v).life hv
  obtain ⟨_, _, hlife'⟩ := (ha.workers w).life hw
  rw [hlife] at hlife'
  cases hlife'
  rfl

/-- Every step keeps the active queue filled. -/
theorem inActive_step {s s' : State n m} {l} {a : TaskId → Life n} (ha : Refines s a)
    (hs : InActive s) (h : Step s l s') : InActive s' := by
  -- A worker that moves on with the same task, or leaves the active queue alone.
  have hset : ∀ {w pc}, pc.active? = none ∨ pc.active? = (s.worker w).active? →
      ∀ v t, (Function.update s.worker w pc v).active? = some t → t ∈ s.active := by
    intro w pc hpc
    refine (Function.forall_update_iff _ fun _ (pc : WorkerPc) =>
      ∀ t, pc.active? = some t → t ∈ s.active).2 ⟨fun t ht => ?_, fun v _ => hs v⟩
    rcases hpc with hpc | hpc
    · rw [hpc] at ht; cases ht
    · exact hs w t (hpc ▸ ht)
  cases h
  case pushActive w t hw =>
    intro v u hu
    have : u ∈ s.active ∨ u = t := by
      by_cases hv : v = w
      · subst hv
        have : t = u := by simpa [WorkerPc.active?] using hu
        exact .inr this.symm
      · exact .inl (hs v u (by simpa [Function.update_of_ne hv] using hu))
    simpa using this
  case removeActive w t hw =>
    intro v u hu
    have hv : v ≠ w := fun hv => by subst hv; simp [WorkerPc.active?] at hu
    have hu' : (s.worker v).active? = some u := by simpa [Function.update_of_ne hv] using hu
    have hne : u ≠ t := fun hut => by
      subst hut
      exact hv (ha.worker_unique (WorkerPc.task?_of_active? hu') (by rw [hw]; rfl))
    exact (List.mem_erase_of_ne hne).2 (hs v u hu')
  case destroyBroadcastPending =>
    intro v u hu
    exact hs v u (by simpa using hu)
  all_goals first
    | exact hs
    | exact hset (.inl rfl)
    | exact hset (.inr (by rw [‹s.worker _ = _›]; rfl))

/-! ## Finalized tasks -/

/-- The task the worker has called `task_finalize` for and not freed yet. -/
def WorkerPc.finalized? : WorkerPc → Option TaskId
  | .finalizer t | .removeActive t | .destroyTask t | .finalizerLast t | .destroyLast t
  | .clearFinalizer t _ | .clearDestroy t _ => some t
  | _ => none

/-- `task_finalize` was called for the task. -/
def State.Finalized (s : State n m) (t : TaskId) : Prop :=
  (s.task t).freed = true ∨ ∃ w, (s.worker w).finalized? = some t

/-- A worker whose task was finalized is past `task_finalize`. -/
theorem WorkerPc.finalized?_of_stage {pc : WorkerPc} {w : Fin n} {t : TaskId} {acted : Bool}
    (ht : pc.task? = some t) (hs : pc.Stage w (.held w acted true)) : pc.finalized? = some t := by
  cases pc <;> simp_all [task?, Stage, finalized?]

/-- A worker whose task was not finalized is ahead of `task_finalize`. -/
theorem WorkerPc.active?_of_stage {pc : WorkerPc} {w : Fin n} {t : TaskId} {acted : Bool}
    (ht : pc.task? = some t) (hs : pc.Stage w (.held w acted false)) (he : pc.exiting = false)
    (hpolled : pc ≠ .polled t) (hpush : pc ≠ .pushActive t) : pc.active? = some t := by
  cases pc <;> simp_all [task?, Stage, active?, exiting]

/-- What the life of a task accounts for is what happened to the task. -/
theorem Refines.finalized {s : State n m} {a : TaskId → Life n} (ha : Refines s a) {t : TaskId}
    (ht : (a t).finalizations = 1) :
    s.Finalized t ∧ ((s.task t).finalize = true → (s.task t).results ≠ []) := by
  refine ⟨?_, fun hf hr => ?_⟩
  · cases hlife : a t with
    | absent => simp [hlife, Life.finalizations] at ht
    | waiting => simp [hlife, Life.finalizations] at ht
    | held w b f =>
        obtain rfl : f = true := by simpa [hlife, Life.finalizations] using ht
        have htask := (ha.workers w).held t b true hlife
        have hstage := (ha.workers w).stage t htask
        exact .inr ⟨w, WorkerPc.finalized?_of_stage htask (hlife ▸ hstage)⟩
    | finished b => exact .inl (by rw [(ha.counted t).freed, hlife]; rfl)
  · have hlen := (ha.counted t).results
    rw [if_pos hf, ht, hr] at hlen
    cases hlen

/-- A finalized task stays so. -/
theorem finalizations_path {a a' : TaskId → Life n} {ts} (hp : (lifecycle n).Path a ts a')
    {t : TaskId} (ht : (a t).finalizations = 1) : (a' t).finalizations = 1 := by
  refine hp.preserves (P := fun a => (a t).finalizations = 1) ht ?_
  rintro a u _ ht ⟨l, hnext, rfl⟩
  by_cases hu : t = u
  · subst hu
    rw [Function.update_self]
    cases h : a t <;> rw [h] at ht hnext <;> cases hnext <;> simp_all [Life.finalizations]
  · rwa [Function.update_of_ne hu]

/-! ## What a query sees -/

/-- What a query knows of its handle at its current step, and what it may have
returned. -/
def CallPc.Sees (pc : CallPc) (s : State n m) (a : TaskId → Life n) : Prop :=
  match pc with
  | .scanActive _ h => h < s.submitted
  | .scanPending _ h => h ∈ s.pending ∨ (a h).finalizations = 1
  | .returned (.state (some h) .notFound) => (a h).finalizations = 1
  | .returned (.cancel (some h) 0) => (a h).finalizations = 1
  | _ => True

/-- As long as the executor lives, every query sees its task. -/
def InSight (s : State n m) (a : TaskId → Life n) : Prop :=
  s.destroyed = false → ∀ τ, (s.call τ).Sees s a

/-- The step does not let a task slip past a query: the active queue is not
scanned for a task that is on its way between the queues, and no task is
polled between the two scans of a query for it. -/
def KeptInSight (s : State n m) (l : Label n m) : Prop :=
  (∀ τ q h, l = .call τ → s.call τ = .scanActive q h →
    ∀ w, s.worker w ≠ .polled h ∧ s.worker w ≠ .pushActive h) ∧
  ∀ w h ts, l = .worker w → s.worker w = .pollHead → s.pending = h :: ts →
    ∀ τ q, s.call τ ≠ .scanPending q h

/-- A task compares equal to itself, so a scan does not miss it. -/
theorem State.tasksFindBy_ne_none {s : State n m} {queue : List TaskId} {h : TaskId}
    (hh : h ∈ queue) : s.tasksFindBy queue h ≠ none := by
  intro hnone
  have := List.find?_eq_none.1 hnone h hh
  simp [taskComparator] at this

/-- While the executor lives, everything that waits is in the pending queue. -/
theorem State.queued_of_alive {s : State n m} (hc : Control s) (hd : s.destroyed = false) :
    s.queued = s.pending := by
  refine State.queued_eq_pending fun w => ?_
  cases hrest : (s.worker w).clearRest? with
  | none => rfl
  | some ts =>
      have := hc.exiting w (WorkerPc.of_clearRest? hrest).2.1
      rw [hd] at this
      cases this

/-- The scan of the active queue misses only tasks that still wait, are on
their way, or are finalized. -/
theorem sees_of_activeMiss {s : State n m} {a : TaskId → Life n} (hc : Control s)
    (ha : Refines s a) (hin : InActive s) (hd : s.destroyed = false) {h : TaskId}
    (hlt : h < s.submitted) (hway : ∀ w, s.worker w ≠ .polled h ∧ s.worker w ≠ .pushActive h)
    (hmiss : s.tasksFindBy s.active h = none) : h ∈ s.pending ∨ (a h).finalizations = 1 := by
  cases hlife : a h with
  | absent => exact absurd ((ha.queue.absent h).1 hlife) (Nat.not_le_of_lt hlt)
  | waiting => exact .inl (State.queued_of_alive hc hd ▸ (ha.queue.waiting h).1 hlife)
  | finished b => exact .inr rfl
  | held w b f =>
      cases f with
      | true => exact .inr rfl
      | false =>
          have htask := (ha.workers w).held h b false hlife
          have hstage := (ha.workers w).stage h htask
          have he : (s.worker w).exiting = false := by
            cases he : (s.worker w).exiting with
            | false => rfl
            | true => simp [hc.exiting w he] at hd
          have hactive :=
            WorkerPc.active?_of_stage htask (hlife ▸ hstage) he (hway w).1 (hway w).2
          exact absurd hmiss (State.tasksFindBy_ne_none (hin w h hactive))

/-- A live executor only takes a task off the pending queue in `queue_poll`. -/
theorem mem_pending_step {s s' : State n m} {l} (hc : Control s) (h : Step s l s')
    (hd : s.destroyed = false) {t : TaskId} (ht : t ∈ s.pending) :
    t ∈ s'.pending ∨
      ∃ w ts, l = .worker w ∧ s.worker w = .pollHead ∧ s.pending = t :: ts := by
  cases h
  case pollTake w u ts hw hp =>
    rw [hp] at ht
    rcases List.mem_cons.1 ht with rfl | ht
    · exact .inr ⟨w, ts, rfl, hw, hp⟩
    · exact .inl ht
  case clearDone w hw =>
    have := hc.exiting w (by rw [hw]; rfl)
    simp [hd] at this
  case submitPush => exact .inl (List.mem_append_left _ ht)
  all_goals exact .inl ht

/-- Nobody takes a submission back. -/
theorem submitted_le_step {s s' : State n m} {l} (h : Step s l s') :
    s.submitted ≤ s'.submitted := by
  cases h
  case submitPush => exact Nat.le_succ _
  all_goals exact Nat.le_refl _

/-- The executor is never brought back to life. -/
theorem destroyed_step {s s' : State n m} {l} (h : Step s l s') (hd : s'.destroyed = false) :
    s.destroyed = false := by
  cases h
  case destroySet => cases hd
  all_goals exact hd

/-- A task that was submitted stays cancelled. -/
theorem cancelled_step {s s' : State n m} {l} (h : Step s l s') {t : TaskId}
    (ht : t < s.submitted) (hcancelled : (s.task t).cancelled = true) :
    (s'.task t).cancelled = true := by
  have htouch := touches_step h t
  generalize s'.task t = task at htouch ⊢
  cases htouch with
  | leave => exact hcancelled
  | create _ _ hnew => exact absurd hnew (Nat.ne_of_lt ht)
  | mark => rfl
  | run => exact hcancelled
  | free => exact hcancelled
  | finalize w result hw =>
      rw [taskFinalize]
      split <;> exact hcancelled

/-- The calls of the other threads stay where they are. -/
theorem call_frame {s s' : State n m} {l} (h : Step s l s') {τ : Thread n m}
    (hl : l ≠ .call τ) : s'.call τ = s.call τ := by
  have hne : ∀ {τ' pc}, l = .call τ' → Function.update s.call τ' pc τ = s.call τ := by
    rintro τ' pc rfl
    refine Function.update_of_ne ?_ _ _
    rintro rfl
    exact hl rfl
  cases h
  all_goals first
    | rfl
    | exact hne rfl

/-- A thread comes to append a task only at the beginning of a call. -/
theorem inProgress_of_submitPush {s s' : State n m} {τ : Thread n m} {finalize : Bool}
    (h : Step s (.call τ) s') (hpush : s'.call τ = .submitPush finalize) :
    (s.call τ).inProgress = false := by
  have hmay : s.MayCall τ → (s.call τ).inProgress = false := fun hmay => hmay.1
  cases h
  all_goals first
    | exact hmay ‹_›
    | exact absurd ((Function.update_self _ _ _).symm.trans hpush) (by simp)

/-- Appending a task gives it its name. -/
theorem submitted_of_submitPush {s s' : State n m} {τ : Thread n m} {finalize : Bool}
    (h : Step s (.call τ) s') (hpush : s.call τ = .submitPush finalize) :
    s'.submitted = s.submitted + 1 := by
  have hmay : ¬s.MayCall τ := fun hmay => by
    simp [State.MayCall, hpush, CallPc.inProgress] at hmay
  cases h
  case submitPush => rfl
  all_goals first
    | exact absurd ‹_› hmay
    | exact absurd (hpush.symm.trans ‹s.call τ = _›) (by simp)

/-- A query keeps its knowledge while others take steps. -/
theorem CallPc.Sees.frame {pc : CallPc} {s s' : State n m} {a a' : TaskId → Life n}
    (h : pc.Sees s a) (hk : s.submitted ≤ s'.submitted)
    (hf : ∀ t, (a t).finalizations = 1 → (a' t).finalizations = 1)
    (hp : ∀ q t, pc = .scanPending q t → t ∈ s.pending → t ∈ s'.pending) : pc.Sees s' a' := by
  unfold Sees at h ⊢
  split at h
  · exact Nat.lt_of_lt_of_le h hk
  · exact h.imp (hp _ _ rfl) (hf _)
  · exact hf _ h
  · exact hf _ h
  · trivial

/-- What the thread that takes the step knows after it. -/
theorem sees_step {s s' : State n m} {l} {a : TaskId → Life n} (hc : Control s)
    (ha : Refines s a) (hin : InActive s) (hs : InSight s a) (hkept : KeptInSight s l)
    (h : Step s l s') (hd : s.destroyed = false) :
    s'.call = s.call ∨ ∃ τ pc, l = .call τ ∧ s'.call = Function.update s.call τ pc ∧
      ∀ a', (∀ t, (a t).finalizations = 1 → (a' t).finalizations = 1) → pc.Sees s' a' := by
  cases h
  case activeMiss τ q h hcall hmiss =>
    have hlt : h < s.submitted := by
      have := hs hd τ
      rwa [hcall] at this
    have hsees := sees_of_activeMiss hc ha hin hd hlt (hkept.1 τ q h rfl hcall) hmiss
    exact .inr ⟨τ, _, rfl, rfl, fun a' hf => hsees.imp_right (hf h)⟩
  case pendingMiss τ q h hcall _ hmiss =>
    have hsees : h ∈ s.pending ∨ (a h).finalizations = 1 := by
      have := hs hd τ
      rwa [hcall] at this
    have hfin := hsees.resolve_left fun hmem => State.tasksFindBy_ne_none hmem hmiss
    exact .inr ⟨τ, _, rfl, rfl, fun a' hf => by cases q <;> exact hf h hfin⟩
  case activeHit τ q h p hcall hfind =>
    refine .inr ⟨τ, _, rfl, rfl, fun a' hf => ?_⟩
    cases q with
    | cancel => trivial
    | state => cases hp : (s.task p).cancelled <;> simp [State.hit, CallPc.Sees, hp]
  case pendingHit τ q h p hcall _ hfind =>
    refine .inr ⟨τ, _, rfl, rfl, fun a' hf => ?_⟩
    cases q with
    | cancel => trivial
    | state => cases hp : (s.task p).cancelled <;> simp [State.hit, CallPc.Sees, hp]
  case queryRefused τ q h hmay href =>
    obtain rfl : h = none := href.resolve_left (by simp [hd])
    exact .inr ⟨τ, _, rfl, rfl, fun a' hf => by cases q <;> trivial⟩
  case queryAccepted τ q h hmay hd hlt => exact .inr ⟨τ, _, rfl, rfl, fun a' hf => hlt⟩
  all_goals first
    | exact .inl rfl
    | exact .inr ⟨_, _, rfl, rfl, fun _ _ => trivial⟩

/-- A step that keeps the tasks in sight keeps every query seeing. -/
theorem inSight_step {s s' : State n m} {l} {a a' : TaskId → Life n} {ts} (hc : Control s)
    (ha : Refines s a) (hin : InActive s) (hs : InSight s a) (hkept : KeptInSight s l)
    (h : Step s l s') (hp : (lifecycle n).Path a ts a') : InSight s' a' := by
  intro hd' τ
  have hd := destroyed_step h hd'
  have hf : ∀ t, (a t).finalizations = 1 → (a' t).finalizations = 1 :=
    fun t => finalizations_path hp
  have hframe : (s.call τ).Sees s' a' := by
    refine (hs hd τ).frame (submitted_le_step h) hf fun q t hcall ht => ?_
    refine (mem_pending_step hc h hd ht).resolve_right ?_
    rintro ⟨w, ts, hl, hw, hpend⟩
    exact hkept.2 w t ts hl hw hpend τ q hcall
  rcases sees_step hc ha hin hs hkept h hd with hcall | ⟨υ, pc, -, hcall, hsees⟩
  · rwa [hcall]
  · rw [hcall]
    by_cases hτ : τ = υ
    · subst hτ
      simpa using hsees a' hf
    · rwa [Function.update_of_ne hτ]

/-- In every run that keeps the tasks in sight, every query sees its task. -/
theorem exists_inSight {s : State n m} (hs : ((system n m).restrict KeptInSight).Reachable s) :
    ∃ a : TaskId → Life n, Refines s a ∧ InActive s ∧ InSight s a := by
  refine hs.invariant (P := fun s => ∃ a : TaskId → Life n, Refines s a ∧ InActive s ∧ InSight s a)
    ?_ ?_
  · rintro s rfl
    exact ⟨_, refines_executorCreate n m, nofun, fun _ _ => trivial⟩
  · rintro s l s' hr ⟨a, ha, hin, hsight⟩ ⟨hkept, h⟩
    have hc := control_of_reachable hr.of_restrict
    obtain ⟨ts, a', hp, ha'⟩ := refines_step hc ha h
    exact ⟨a', ha', inActive_step ha hin h, inSight_step hc ha hin hsight hkept h hp⟩

/-- **Live tasks stay visible** in every run that keeps them in sight: when
`executor_task_state` returns `EXECUTOR_TASK_STATE_NOT_FOUND` or
`executor_cancel` returns 0 on a living executor, the task of the handle was
finalized. -/
theorem live_task_visible {s : State n m} (hs : ((system n m).restrict KeptInSight).Reachable s)
    (hd : s.destroyed = false) {τ : Thread n m} {h : TaskId}
    (hret : s.call τ = .returned (.state (some h) .notFound) ∨
      s.call τ = .returned (.cancel (some h) 0)) :
    s.Finalized h ∧ ((s.task h).finalize = true → (s.task h).results ≠ []) := by
  obtain ⟨a, ha, -, hsight⟩ := exists_inSight hs
  have hsees := hsight hd τ
  rcases hret with hret | hret <;> rw [hret] at hsees <;> exact ha.finalized hsees

/-- A caller that waits for its task before it asks: the worker took the task,
ran it and freed it. -/
theorem live_task_visible_done : ∃ s : State 1 1, (system 1 1).Reachable s ∧
    s.call (.outside 0) = .returned (.state (some 0) .notFound) ∧ s.Finalized 0 := by
  -- Only `pollTake` and a scan of the active queue can let a task slip past.
  have hw : ∀ {s : State 1 1} {pc}, s.worker 0 = pc → pc ≠ .pollHead →
      KeptInSight s (.worker 0) := fun h hpc =>
    ⟨nofun, fun | _, _, _, rfl, h' => absurd (h.symm.trans h') hpc⟩
  have hc : ∀ {s : State 1 1} {pc}, s.call (.outside 0) = pc → (∀ q h, pc ≠ .scanActive q h) →
      KeptInSight s (.call (.outside 0)) := fun h hpc =>
    ⟨fun | _, _, _, rfl, h' => absurd (h.symm.trans h') (hpc _ _), nofun⟩
  have h : ((system 1 1).restrict KeptInSight).Reachable (executorCreate 1 1) := .init rfl
  have h := restrict_step (.call (.outside 0)) h (hc rfl nofun)
    (.submitAccepted true ⟨rfl, rfl⟩ rfl)
  have h := restrict_step (.call (.outside 0)) h (hc rfl nofun)
    (.submitPush 16 rfl (by rintro w ⟨⟩) (by rintro t ⟨⟩))
  have h := restrict_step (.call (.outside 0)) h (hc rfl nofun)
    (.submitSignalLost rfl (by rintro w ⟨⟩))
  have h := restrict_step (.worker 0) h (hw rfl nofun) (.pollLock rfl rfl)
  have h := restrict_step (.worker 0) h
    ⟨nofun, fun | _, _, _, _, _, _, .outside 0 => nofun | _, _, _, _, _, _, .worker 0 => nofun⟩
    (.pollTake rfl rfl)
  have h := restrict_step (.worker 0) h (hw rfl nofun) (.checkAlive rfl rfl)
  have h := restrict_step (.worker 0) h (hw rfl nofun) (.pushActive rfl)
  have h := restrict_step (.worker 0) h (hw rfl nofun) (.runAction rfl rfl)
  have h := restrict_step (.callback 0) h ⟨nofun, nofun⟩ (.actionReturn 0 rfl rfl)
  have h := restrict_step (.worker 0) h (hw rfl nofun) (.recheck rfl)
  have h := restrict_step (.worker 0) h (hw rfl nofun) (.finalize rfl)
  have h := restrict_step (.callback 0) h ⟨nofun, nofun⟩ (.finalizerReturn rfl rfl)
  have h := restrict_step (.worker 0) h (hw rfl nofun) (.removeActive rfl)
  have h := restrict_step (.worker 0) h (hw rfl nofun) (.destroyTask rfl)
  have h := restrict_step (.call (.outside 0)) h (hc rfl nofun)
    (.queryAccepted .state 0 ⟨rfl, rfl⟩ rfl Nat.one_pos)
  have h := restrict_step (.call (.outside 0)) h ⟨fun | _, _, _, _, _, 0 => ⟨nofun, nofun⟩, nofun⟩
    (.activeMiss rfl rfl)
  have h := restrict_step (.call (.outside 0)) h (hc rfl nofun)
    (.pendingMiss rfl (by rintro w ⟨⟩) rfl)
  exact ⟨_, h.of_restrict, rfl, (@live_task_visible 1 1 _ h rfl (.outside 0) 0 (.inl rfl)).1⟩

/-- A query for the only task, made while the worker has polled it and not yet
pushed it to the active queue. -/
theorem exists_missed (q : Query) : ∃ s : State 1 1, (system 1 1).Reachable s ∧
    s.destroyed = false ∧ s.submitted = 1 ∧ s.call (.outside 0) = .returned (q.miss 0) ∧
      (s.task 0).finalize = true ∧ (s.task 0).results = [] := by
  have h : (system 1 1).Reachable (executorCreate 1 1) := .init rfl
  have h := reachable_step (.call (.outside 0)) h (.submitAccepted true ⟨rfl, rfl⟩ rfl)
  have h := reachable_step (.call (.outside 0)) h
    (.submitPush 16 rfl (by rintro w ⟨⟩) (by rintro t ⟨⟩))
  have h := reachable_step (.call (.outside 0)) h (.submitSignalLost rfl (by rintro w ⟨⟩))
  have h := reachable_step (.worker 0) h (.pollLock rfl rfl)
  have h := reachable_step (.worker 0) h (.pollTake rfl rfl)
  have h := reachable_step (.call (.outside 0)) h (.queryAccepted q 0 ⟨rfl, rfl⟩ rfl Nat.one_pos)
  have h := reachable_step (.call (.outside 0)) h (.activeMiss rfl rfl)
  have h := reachable_step (.call (.outside 0)) h (.pendingMiss rfl (by rintro w ⟨⟩) rfl)
  exact ⟨_, h, rfl, rfl, rfl, rfl, rfl⟩

/-- Both queries miss a task that is submitted and still to be finalized. -/
theorem live_task_missed :
    (∃ s : State 1 1, (system 1 1).Reachable s ∧ s.destroyed = false ∧ s.submitted = 1 ∧
      s.call (.outside 0) = .returned (.state (some 0) .notFound) ∧
      (s.task 0).finalize = true ∧ (s.task 0).results = []) ∧
    ∃ s : State 1 1, (system 1 1).Reachable s ∧ s.destroyed = false ∧ s.submitted = 1 ∧
      s.call (.outside 0) = .returned (.cancel (some 0) 0) ∧
      (s.task 0).finalize = true ∧ (s.task 0).results = [] :=
  ⟨exists_missed .state, exists_missed .cancel⟩

end CommonsC.Executor
