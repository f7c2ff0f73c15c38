import CommonsC.GcdbUpdater.Concurrent

/-!
# CommonsC.GcdbUpdater.Teardown

The updater is cleared under the tasks that use it.

`Quiet` tells of a state that no update task can come to read the updater any
more.  Once the updater is cleared every step keeps it (`quiet_step`), so no
task misreads if `commons_gcdb_updater_deinit` returns in such a state only.
It does not wait for one: `misread_of_deinit` is a run in which a task reads
the cleared updater.
-/

namespace CommonsC.GcdbUpdater

open Executor (TaskId ECANCELED WorkerPc CallPc Query Thread Label)
open Function (update)

variable {n m : Nat}

/-! ## Harmless tasks -/

/-- Where the worker is, its update task will not run, or will not be given a
result other than `ECANCELED`. -/
def HarmlessAt (tasks : List TaskId) (e : Executor.State n m) : WorkerPc → Prop
  | .polled t => t ∈ tasks → (e.task t).cancelled = true ∨ e.destroyed = true
  | .pushActive t | .readCancelled t => t ∈ tasks → (e.task t).cancelled = true
  | .action t => t ∈ tasks → e.destroyed = true
  | .recheck t result => t ∈ tasks → result = ECANCELED ∨ e.destroyed = true
  | .finalize t result => t ∈ tasks → result = ECANCELED
  | _ => True

/-- The code that the worker is in does not read the updater any more. -/
def TaskPc.Harmless : TaskPc → Prop
  | .setup | .transfer _ => False
  | .finalizer result => result = ECANCELED
  | _ => True

/-- The executor will not start an update task that reads the updater. -/
structure ExecQuiet (tasks : List TaskId) (e : Executor.State n m) : Prop where
  pending : ∀ t ∈ tasks, t ∈ e.pending → (e.task t).cancelled = true ∨ e.destroyed = true
  worker : ∀ w, HarmlessAt tasks e (e.worker w)

/-- Each update task is over or will be skipped, or its transfer is over and the
executor destroyed, and no update is about to append its task. -/
structure Quiet (s : System n m) : Prop where
  exec : ExecQuiet s.tasks s.exec
  code : ∀ w, (s.code w).Harmless
  submit : ∀ τ, s.api τ = .updateSubmitting → s.exec.call τ ≠ .submitPush true

section

variable {tasks : List TaskId} {e e' : Executor.State n m} {l : Label n m}

/-- What is harmless stays so at the same place. -/
theorem HarmlessAt.mono {pc : WorkerPc} (h : HarmlessAt tasks e pc)
    (htasks : ∀ t ∈ tasks, t < e.submitted) (hstep : Executor.Step e l e') :
    HarmlessAt tasks e' pc := by
  have hcancelled : ∀ t ∈ tasks, (e.task t).cancelled = true → (e'.task t).cancelled = true :=
    fun t ht => Executor.cancelled_step hstep (htasks t ht)
  have hdestroyed : e.destroyed = true → e'.destroyed = true := by
    intro hd
    by_contra hd'
    rw [Bool.not_eq_true] at hd'
    rw [Executor.destroyed_step hstep hd'] at hd
    cases hd
  cases pc with
  | polled t => exact fun ht => (h ht).imp (hcancelled t ht) hdestroyed
  | pushActive t => exact fun ht => hcancelled t ht (h ht)
  | readCancelled t => exact fun ht => hcancelled t ht (h ht)
  | action t => exact fun ht => hdestroyed (h ht)
  | recheck t result => exact fun ht => (h ht).imp_right hdestroyed
  | finalize t result => exact h
  | _ => trivial

theorem HarmlessAt.wake {pc : WorkerPc} (h : HarmlessAt tasks e pc) :
    HarmlessAt tasks e pc.wake := by
  cases pc with
  | waiting => trivial
  | _ => exact h

/-- A task is queued by its submission only. -/
theorem mem_pending_of_step {t : TaskId} (hstep : Executor.Step e l e') (ht : t ∈ e'.pending) :
    t ∈ e.pending ∨ t = e.submitted := by
  cases hstep
  case pollTake hpending => exact .inl (hpending ▸ List.mem_cons_of_mem _ ht)
  case clearDone => exact absurd ht List.not_mem_nil
  case submitPush => simpa using ht
  all_goals exact .inl ht

/-- **Every step of the executor keeps it quiet.** -/
theorem execQuiet_step (h : ExecQuiet tasks e) (htasks : ∀ t ∈ tasks, t < e.submitted)
    (hstep : Executor.Step e l e') : ExecQuiet tasks e' := by
  have hkeep : ∀ w, HarmlessAt tasks e' (e.worker w) := fun w => (h.worker w).mono htasks hstep
  constructor
  · intro t ht hmem
    rcases mem_pending_of_step hstep hmem with hmem | rfl
    · have hqueued : HarmlessAt tasks e (.polled t) := fun ht => h.pending t ht hmem
      exact hqueued.mono htasks hstep ht
    · exact absurd (htasks _ ht) (Nat.lt_irrefl _)
  · have hset : ∀ {w pc}, HarmlessAt tasks e' pc → ∀ v,
        HarmlessAt tasks e' (update e.worker w pc v) := by
      intro w pc hpc v
      rcases eq_or_ne v w with rfl | hne
      · rwa [Function.update_self]
      · rw [Function.update_of_ne hne]
        exact hkeep v
    cases hstep
    case pollTake w t ts hpc hpending =>
      exact hset fun ht => h.pending t ht (hpending ▸ List.mem_cons_self)
    case checkAlive w t hpc hd =>
      have hpolled := h.worker w
      rw [hpc] at hpolled
      exact hset fun ht => (hpolled ht).resolve_right (by simp [hd])
    case pushActive w t hpc =>
      have hpushed := h.worker w
      rw [hpc] at hpushed
      exact hset hpushed
    case runAction w t hpc hcancelled =>
      have hread := h.worker w
      rw [hpc] at hread
      exact hset fun ht => absurd (hread ht) (by simp [hcancelled])
    case skipAction => exact hset fun _ => .inl rfl
    case actionReturn w t result hpc _ =>
      have hrun := h.worker w
      rw [hpc] at hrun
      exact hset fun ht => .inr (hrun ht)
    case recheck w t result hpc =>
      have hchecked := h.worker w
      rw [hpc] at hchecked
      refine hset fun ht => ?_
      rcases hchecked ht with rfl | hd
      · exact ite_self _
      · exact if_pos hd
    case destroyBroadcastPending => exact fun w => (hkeep w).wake
    all_goals first
      | exact hkeep
      | exact hset trivial

/-- A worker enters no code that reads the updater. -/
theorem entered_harmless {w : Fin n} (h : ExecQuiet tasks e)
    (hstep : Executor.Step e (.worker w) e') :
    (entered tasks (e.worker w) (e'.worker w)).Harmless := by
  have hw := h.worker w
  have hite : ∀ {t : TaskId} {code : TaskPc}, (t ∈ tasks → code.Harmless) →
      (if t ∈ tasks then code else .outside).Harmless := by
    intro t code hcode
    split
    · exact hcode ‹_›
    · trivial
  have hset : ∀ {pc : WorkerPc}, (entered tasks (e.worker w) pc).Harmless →
      (entered tasks (e.worker w) (update e.worker w pc w)).Harmless := by
    intro pc hpc
    rwa [Function.update_self]
  cases hstep
  case runAction t hcancelled hpc =>
    refine hset ?_
    rw [hpc] at hw ⊢
    exact hite fun ht => absurd (hw ht) (by simp [hcancelled])
  case finalize t result hpc =>
    refine hset ?_
    rw [hpc] at hw ⊢
    exact hite hw
  case finalizeLast t hpc =>
    refine hset ?_
    rw [hpc]
    exact hite fun _ => rfl
  case clearFinalize t ts hpc =>
    refine hset ?_
    rw [hpc]
    exact hite fun _ => rfl
  all_goals
    refine hset ?_
    rw [‹e.worker w = _›]
    trivial

/-- Code that is harmless reads nothing, and stays so. -/
theorem TaskStep.harmless {fresh : Nat → UInt8} {updater : Updater} {pc pc' : TaskPc}
    {reads : Bool} (hstep : TaskStep fresh updater pc reads pc') (h : pc.Harmless) :
    reads = false ∧ pc'.Harmless := by
  cases hstep with
  | setupHeaders => exact h.elim
  | header => exact h.elim
  | body => exact h.elim
  | perform => exact h.elim
  | finalizeSilent hresult => exact absurd h hresult
  | finalizeNotify hresult => exact absurd h hresult
  | _ => exact ⟨rfl, trivial⟩

end

/-! ## The cleared updater -/

section

variable {fresh : Nat → UInt8} {updater : Updater} {s s' : System n m} {a : Act n m}

/-- The other fields do not matter. -/
theorem Quiet.congr (h : Quiet s) (hexec : s'.exec = s.exec) (htasks : s'.tasks = s.tasks)
    (hcode : s'.code = s.code) (hapi : s'.api = s.api) : Quiet s' where
  exec := by rw [htasks, hexec]; exact h.exec
  code := by rw [hcode]; exact h.code
  submit := by rw [hapi, hexec]; exact h.submit

theorem Quiet.setApi (h : Quiet s) (τ : Thread n m) {pc : ApiPc} (hpc : pc ≠ .updateSubmitting) :
    Quiet (s.setApi τ pc) where
  exec := h.exec
  code := h.code
  submit τ' hτ' := by
    rcases eq_or_ne τ' τ with rfl | hne
    · exact absurd ((Function.update_self _ _ _).symm.trans hτ') hpc
    · exact h.submit τ' ((Function.update_of_ne hne _ _).symm.trans hτ')

/-- Quietness is kept by the executor, if no update begins to append its task. -/
theorem Quiet.step (h : Quiet s) (htasks : ∀ t ∈ s.tasks, t < s.exec.submitted)
    {e : Executor.State n m} {l : Label n m} (hstep : Executor.Step s.exec l e)
    (hpush : ∀ τ, l = .call τ → s.api τ = .updateSubmitting → e.call τ ≠ .submitPush true) :
    Quiet { s with exec := e } where
  exec := execQuiet_step h.exec htasks hstep
  code := h.code
  submit τ hτ := by
    by_cases hl : l = .call τ
    · exact hpush τ hl hτ
    · rw [Executor.call_frame hstep hl]
      exact h.submit τ hτ

/-- In a call that is not for an update. -/
theorem Quiet.step_call (h : Quiet s) (htasks : ∀ t ∈ s.tasks, t < s.exec.submitted)
    {e : Executor.State n m} {τ : Thread n m} (hstep : Executor.Step s.exec (.call τ) e)
    (hapi : s.api τ ≠ .updateSubmitting) : Quiet { s with exec := e } := by
  refine h.step htasks hstep fun τ' hτ' hapi' => ?_
  cases hτ'
  exact absurd hapi' hapi

theorem Quiet.setCode (h : Quiet s) (w : Fin n) {pc : TaskPc} (hpc : pc.Harmless) :
    Quiet { s with code := update s.code w pc } where
  exec := h.exec
  code v := by
    change (update s.code w pc v).Harmless
    rcases eq_or_ne v w with rfl | hne
    · rwa [Function.update_self]
    · rw [Function.update_of_ne hne]
      exact h.code v
  submit := h.submit

/-- **Every step keeps a cleared updater quiet.** -/
theorem quiet_step (hcleared : s.alive = false) (h : Quiet s)
    (htasks : ∀ t ∈ s.tasks, t < s.exec.submitted) (hstep : Step fresh updater s a s') :
    Quiet s' := by
  cases hstep
  case worker e w hexec =>
    exact (h.step htasks hexec (by simp)).setCode w (entered_harmless h.exec hexec)
  case spurious hexec => exact h.step htasks hexec (by simp)
  case callback e w hexec _ _ => exact (h.step htasks hexec (by simp)).setCode w trivial
  case call hexec hapi _ => exact h.step_call htasks hexec (by simp [hapi])
  case destroy hexec => exact h.step htasks hexec (by simp)
  case task w reads pc hpc _ _ =>
    exact (h.setCode w (hpc.harmless (h.code w)).2).congr rfl rfl rfl rfl
  -- `commons_gcdb_updater_update`
  case updateScan hapi _ hexec => exact h.step_call htasks hexec (by simp [hapi])
  case updateTest r _ _ => exact h.setApi _ (by split <;> simp)
  case updateSubmitting e τ hapi hprogress hexec =>
    rw [if_neg (h.submit τ hapi)]
    refine h.step htasks hexec fun τ' hτ' _ hpush => ?_
    cases hτ'
    rw [Executor.inProgress_of_submitPush hexec hpush] at hprogress
    cases hprogress
  case updateStore => exact (h.setApi _ (by simp)).congr rfl rfl rfl rfl
  case updateUnlock => exact (h.setApi _ (by simp)).congr rfl rfl rfl rfl
  -- `commons_gcdb_updater_deinit`
  case deinitLock => exact (h.setApi _ (by simp)).congr rfl rfl rfl rfl
  case deinitNull => exact h.setApi _ (by simp)
  case deinitCancel τ _ hapi _ hexec _ =>
    have hquiet := h.step_call htasks hexec (by simp [hapi])
    exact (hquiet.setApi τ (by simp)).congr rfl rfl rfl rfl
  case deinitCancelling hapi _ hexec => exact h.step_call htasks hexec (by simp [hapi])
  case deinitClear => exact (h.setApi _ (by simp)).congr rfl rfl rfl rfl
  case deinitUnlock => exact (h.setApi _ (by simp)).congr rfl rfl rfl rfl
  case deinitFree => exact (h.setApi _ (by simp)).congr rfl rfl rfl rfl
  -- The others need an updater that is alive.
  all_goals exact absurd ‹s.alive = true› (by simp [hcleared])

/-- The tasks of the updater were submitted. -/
theorem tasks_step (htasks : ∀ t ∈ s.tasks, t < s.exec.submitted)
    (hstep : Step fresh updater s a s') : ∀ t ∈ s'.tasks, t < s'.exec.submitted := by
  have hmono : ∀ {e : Executor.State n m} {l : Label n m}, Executor.Step s.exec l e →
      ∀ t ∈ s.tasks, t < e.submitted := fun hexec t ht =>
    (htasks t ht).trans_le (Executor.submitted_le_step hexec)
  cases hstep
  case updateSubmitting e τ _ _ hexec =>
    intro t ht
    change t ∈ (if s.exec.call τ = .submitPush true then _ else _) at ht
    split at ht
    · next hpush =>
        have hsucc := Executor.submitted_of_submitPush hexec hpush
        rcases List.mem_cons.1 ht with rfl | ht
        · exact hsucc ▸ Nat.lt_succ_self _
        · exact hmono hexec t ht
    · exact hmono hexec t ht
  all_goals first
    | exact htasks
    | exact hmono ‹_›

/-- What holds in a run in which the updater is cleared in quiet states only. -/
structure Safe (s : System n m) : Prop where
  tasks : ∀ t ∈ s.tasks, t < s.exec.submitted
  quiet : s.alive = false → Quiet s
  misread : s.misread = false

/-- The step does not clear the updater, or does so in a quiet state. -/
def ClearsQuiet (s : System n m) (a : Act n m) : Prop :=
  ∀ τ, a = .deinit τ → s.api τ = .deinitFree → Quiet s

theorem safe_step (h : Safe s) (hquiet : ClearsQuiet s a) (hstep : Step fresh updater s a s') :
    Safe s' := by
  refine ⟨tasks_step h.tasks hstep, fun hcleared => ?_, ?_⟩
  · by_cases halive : s.alive = false
    · exact quiet_step halive (h.quiet halive) h.tasks hstep
    · cases hstep
      case deinitFree τ hapi =>
        exact ((hquiet τ rfl hapi).setApi τ (by simp)).congr rfl rfl rfl rfl
      all_goals exact absurd hcleared halive
  · cases hstep
    case task w reads pc hpc _ _ =>
      change (s.misread || (reads && !s.alive)) = false
      rw [h.misread, Bool.false_or]
      cases halive : s.alive with
      | true => exact Bool.and_false _
      | false => rw [(hpc.harmless ((h.quiet halive).code w)).1, Bool.false_and]
    all_goals exact h.misread

/-- **No update task reads a cleared updater** in a run in which
`commons_gcdb_updater_deinit` returns only when all of them are harmless. -/
theorem not_misread_of_quiet (hs : ((concurrent fresh updater n m).restrict ClearsQuiet).Reachable
    s) : s.misread = false := by
  have hsafe : Safe s := by
    refine hs.invariant ?_ fun _ _ _ _ h hstep => safe_step h hstep.1 hstep.2
    rintro _ rfl
    exact ⟨fun t ht => absurd ht List.not_mem_nil, fun h => (by cases h), rfl⟩
  exact hsafe.misread

end

/-- The updater of the runs below. -/
def macUpdater : Updater := commonsGcdbUpdaterInit (.lit "Mac OS X") none

/-- One more step of a run in which the updater is cleared in quiet states. -/
theorem clears_step {fresh : Nat → UInt8} {updater : Updater} {s s' : System n m} (a : Act n m)
    (hs : ((concurrent fresh updater n m).restrict ClearsQuiet).Reachable s)
    (ha : ∀ τ, a = .deinit τ → s.api τ ≠ .deinitFree) (h : Step fresh updater s a s') :
    ((concurrent fresh updater n m).restrict ClearsQuiet).Reachable s' :=
  hs.step ⟨fun τ hτ hapi => absurd hapi (ha τ hτ), h⟩

/-- The last step of `commons_gcdb_updater_deinit`, in a quiet state. -/
theorem clears_free {fresh : Nat → UInt8} {updater : Updater} {s : System n m} (τ : Thread n m)
    (hs : ((concurrent fresh updater n m).restrict ClearsQuiet).Reachable s)
    (hapi : s.api τ = .deinitFree) (hquiet : Quiet s) :
    ((concurrent fresh updater n m).restrict ClearsQuiet).Reachable
      { s.setApi τ .idle with
        alive := false
        update_task := none } :=
  hs.step (l := .deinit τ) ⟨fun _ _ _ => hquiet, .deinitFree hapi⟩

/-- A run up to the end of `commons_gcdb_updater_update`. -/
def updateRun : { s : System 1 1 //
    ((concurrent (fun _ => 0xaa) macUpdater 1 1).restrict ClearsQuiet).Reachable s } :=
  have h : ((concurrent (fun _ => 0xaa) macUpdater 1 1).restrict ClearsQuiet).Reachable
    (systemInit 1 1) := .init rfl
  have h := clears_step (.update (.outside 0)) h (by simp) (.updateCall rfl rfl ⟨rfl, rfl⟩ trivial)
  have h := clears_step (.update (.outside 0)) h (by simp) (.updateLock rfl rfl rfl)
  have h := clears_step (.update (.outside 0)) h (by simp)
    (.updateState rfl rfl (.queryRefused .state none ⟨rfl, rfl⟩ (.inr rfl)) (.inl rfl))
  have h := clears_step (.update (.outside 0)) h (by simp) (.updateTest .notFound rfl rfl)
  have h := clears_step (.update (.outside 0)) h (by simp)
    (.updateSubmit rfl rfl (.submitAccepted true ⟨rfl, rfl⟩ rfl) (.inr rfl))
  have h := clears_step (.update (.outside 0)) h (by simp)
    (.updateSubmitting rfl rfl (.submitPush 16 rfl (by rintro w ⟨⟩) (by rintro t ⟨⟩)))
  have h := clears_step (.update (.outside 0)) h (by simp)
    (.updateSubmitting rfl rfl (.submitSignalLost rfl (by rintro w ⟨⟩)))
  have h := clears_step (.update (.outside 0)) h (by simp) (.updateStore (some 0) rfl rfl)
  have h := clears_step (.update (.outside 0)) h (by simp) (.updateUnlock rfl)
  ⟨_, h⟩

/-- **A task reads the cleared updater**: `commons_gcdb_updater_deinit` runs
while a worker is at the beginning of `update_task`, and returns. -/
theorem misread_of_deinit : ∃ s : System 1 1,
    (concurrent (fun _ => 0xaa) macUpdater 1 1).Reachable s ∧ s.misread = true := by
  have h := updateRun.2.of_restrict
  -- The worker finds that the task is not cancelled.
  have h := concurrent_step (.exec (.worker 0)) h (.worker (.pollLock rfl rfl))
  have h := concurrent_step (.exec (.worker 0)) h (.worker (.pollTake rfl rfl))
  have h := concurrent_step (.exec (.worker 0)) h (.worker (.checkAlive rfl rfl))
  have h := concurrent_step (.exec (.worker 0)) h (.worker (.pushActive rfl))
  have h := concurrent_step (.exec (.worker 0)) h (.worker (.runAction rfl rfl))
  -- Then it is cancelled, and the updater cleared.
  have h := concurrent_step (.deinit (.outside 0)) h (.deinitCall rfl rfl rfl ⟨rfl, rfl⟩ trivial)
  have h := concurrent_step (.deinit (.outside 0)) h (.deinitLock rfl rfl)
  have h := concurrent_step (.deinit (.outside 0)) h
    (.deinitCancel 0 rfl rfl (.queryAccepted .cancel 0 ⟨rfl, rfl⟩ rfl Nat.one_pos)
      (.inr ⟨0, rfl, rfl⟩))
  have h := concurrent_step (.deinit (.outside 0)) h
    (.deinitCancelling rfl rfl (.activeHit rfl rfl))
  have h := concurrent_step (.deinit (.outside 0)) h (.deinitClear rfl rfl)
  have h := concurrent_step (.deinit (.outside 0)) h (.deinitUnlock rfl)
  have h := concurrent_step (.deinit (.outside 0)) h (.deinitFree rfl)
  have h := concurrent_step (.task 0) h (.task .setupHeaders rfl rfl)
  exact ⟨_, h, rfl⟩

/-- A task that is still queued is cancelled in time. -/
theorem exists_cancelled : ∃ s : System 1 1,
    ((concurrent (fun _ => 0xaa) macUpdater 1 1).restrict ClearsQuiet).Reachable s ∧
      s.tasks = [0] ∧ (s.exec.task 0).cancelled = true ∧ (∀ w, s.exec.worker w = .poll) ∧
      (∀ w, s.code w = .outside) ∧ (∀ w, s.api (.worker w) = .idle) ∧
      s.api (.outside 0) = .deinitFree := by
  have h := updateRun.2
  have h := clears_step (.deinit (.outside 0)) h (by rintro _ ⟨⟩ ⟨⟩)
    (.deinitCall rfl rfl rfl ⟨rfl, rfl⟩ trivial)
  have h := clears_step (.deinit (.outside 0)) h (by rintro _ ⟨⟩ ⟨⟩) (.deinitLock rfl rfl)
  have h := clears_step (.deinit (.outside 0)) h (by rintro _ ⟨⟩ ⟨⟩)
    (.deinitCancel 0 rfl rfl (.queryAccepted .cancel 0 ⟨rfl, rfl⟩ rfl Nat.one_pos)
      (.inr ⟨0, rfl, rfl⟩))
  have h := clears_step (.deinit (.outside 0)) h (by rintro _ ⟨⟩ ⟨⟩)
    (.deinitCancelling rfl rfl (.activeMiss rfl rfl))
  have h := clears_step (.deinit (.outside 0)) h (by rintro _ ⟨⟩ ⟨⟩)
    (.deinitCancelling rfl rfl (.pendingHit rfl (by rintro w ⟨⟩) rfl))
  have h := clears_step (.deinit (.outside 0)) h (by rintro _ ⟨⟩ ⟨⟩) (.deinitClear rfl rfl)
  have h := clears_step (.deinit (.outside 0)) h (by rintro _ ⟨⟩ ⟨⟩) (.deinitUnlock rfl)
  exact ⟨_, h, rfl, rfl, fun _ => rfl, fun _ => rfl, fun _ => rfl, rfl⟩

/-- In such a run nothing is misread. -/
theorem not_misread_of_quiet_cancelled : ∃ s : System 1 1,
    ((concurrent (fun _ => 0xaa) macUpdater 1 1).restrict ClearsQuiet).Reachable s ∧
      s.alive = false ∧ s.tasks = [0] ∧ s.misread = false := by
  obtain ⟨s, hs, htasks, hcancelled, hworker, hcode, hidle, hfree⟩ := exists_cancelled
  have hquiet : Quiet s :=
    { exec :=
        { pending := fun t ht _ => by
            rw [htasks, List.mem_singleton] at ht
            exact .inl (ht ▸ hcancelled)
          worker := fun w => by
            rw [hworker]
            trivial }
      code := fun w => by
        rw [hcode]
        trivial
      submit := fun τ hτ => by
        cases τ with
        | worker w => simp [hidle] at hτ
        | outside c => simp [Subsingleton.elim c 0, hfree] at hτ }
  have h := clears_free (.outside 0) hs hfree hquiet
  exact ⟨_, h, rfl, htasks, not_misread_of_quiet h⟩

end CommonsC.GcdbUpdater
