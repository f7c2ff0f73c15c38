import CommonsC.Executor.Visibility

/-!
# CommonsC.Executor.Cancellation

What `finalize` is told.  `executor_cancel` sets a flag that the worker reads
once, without a lock, before it would invoke the action; the executor may be
destroyed before, during or after the action, and `queue_clear` finalizes what
is left.  A task marked in time is `Doomed`: its action is never invoked and
every result it is finalized with is `ECANCELED`.  For the results of all tasks
the run is recorded (`recorded`): what each action returned and what
`destroyed` was at the check after it.  `cancelled_results` gives the result
in terms of these two.
-/

namespace CommonsC.Executor

open Function (update)

variable {n m : Nat}

/-! ## Marked in time -/

/-- `executor_cancel(executor, h)`, called by `τ`, is about to mark `p`: in the
pending queue, or in the active queue before its worker read the flag. -/
def Cancels (s : State n m) (τ : Thread n m) (h p : TaskId) : Prop :=
  s.call τ = .scanPending .cancel h ∧ s.tasksFindBy s.pending h = some p ∨
    s.call τ = .scanActive .cancel h ∧ s.tasksFindBy s.active h = some p ∧
      ∃ w, s.worker w = .readCancelled p

/-- The result the worker has in hand for its task. -/
def WorkerPc.result? : WorkerPc → Option (TaskId × Int)
  | .recheck t result | .finalize t result => some (t, result)
  | _ => none

attribute [grind] WorkerPc.result?

/-! ## Results in hand -/

/-- How a worker comes to have a result for its task in hand. -/
inductive Obtains (s : State n m) (w : Fin n) (p : TaskId) : Label n m → WorkerPc → Prop
  | keep {l} : Obtains s w p l (s.worker w)
  | skip : s.worker w = .readCancelled p → (s.task p).cancelled = true →
      Obtains s w p (.worker w) (.recheck p ECANCELED)
  | act (result : Int) : s.worker w = .action p →
      Obtains s w p (.callback w) (.recheck p result)
  | check (result : Int) : s.worker w = .recheck p result →
      Obtains s w p (.worker w) (.finalize p (if s.destroyed then ECANCELED else result))

theorem obtains_step {s s' : State n m} {l} (h : Step s l s') {w : Fin n} {p : TaskId}
    {r : Int} (hp : (s'.worker w).result? = some (p, r)) :
    Obtains s w p l (s'.worker w) := by
  -- The steps of other workers, and those that leave no result in hand.
  have hset : ∀ {v pc}, (∀ r, pc.result? = some (p, r) → Obtains s v p l pc) →
      (update s.worker v pc w).result? = some (p, r) →
      Obtains s w p l (update s.worker v pc w) := by
    intro v pc hpc hr
    exact (Function.forall_update_iff _ fun w (pc : WorkerPc) => pc.result? = some (p, r) →
      Obtains s w p l pc).2 ⟨hpc r, fun _ _ _ => .keep⟩ w hr
  cases h
  case skipAction v t hv hc =>
    refine hset (fun r hr => ?_) hp
    obtain rfl : t = p := by cases hr; rfl
    exact .skip hv hc
  case actionReturn v t r hv _ =>
    refine hset (fun r' hr => ?_) hp
    obtain rfl : t = p := by cases hr; rfl
    exact .act r hv
  case recheck v t r hv =>
    refine hset (fun r' hr => ?_) hp
    obtain rfl : t = p := by cases hr; rfl
    exact .check r hv
  case destroyBroadcastPending =>
    have hw : s.worker w ≠ .waiting := fun hw => by
      change (s.worker w).wake.result? = _ at hp
      rw [hw] at hp
      cases hp
    change Obtains s w p _ (s.worker w).wake
    rw [WorkerPc.wake_of_ne hw]
    exact .keep
  all_goals first
    | exact .keep
    | exact hset (fun r hr => by cases hr) hp

/-- A worker starts an action only after reading that the task is not
cancelled. -/
theorem action_step {s s' : State n m} {l} (h : Step s l s') {w : Fin n} {p : TaskId}
    (hw : s'.worker w = .action p) :
    s.worker w = .action p ∨
      s.worker w = .readCancelled p ∧ (s.task p).cancelled = false := by
  cases h <;> grind [WorkerPc.wake]

/-! ## Marked in time -/

/-- A cancelled task whose action was not invoked in time. -/
structure Doomed (s : State n m) (p : TaskId) : Prop where
  known : p < s.submitted
  cancelled : (s.task p).cancelled = true
  idle : (s.task p).actionRuns = 0
  results : ∀ r ∈ (s.task p).results, r = ECANCELED
  inHand : ∀ w r, (s.worker w).result? = some (p, r) → r = ECANCELED
  notRunning : ∀ w, s.worker w ≠ .action p

/-- A worker that finalizes a doomed task does so with `ECANCELED`. -/
theorem Doomed.finalizing {s : State n m} {p : TaskId} (hs : Doomed s p) {w : Fin n} {r : Int}
    (hw : (s.worker w).finalizing? = some (p, r)) : r = ECANCELED := by
  cases hpc : s.worker w <;> rw [hpc] at hw <;> cases hw
  case finalize => exact hs.inHand w r (by rw [hpc]; rfl)
  all_goals rfl

/-- A doomed task stays so. -/
theorem doomed_step {s s' : State n m} {l} {p : TaskId} (hs : Doomed s p) (h : Step s l s') :
    Doomed s' p := by
  have htouch := touches_step h p
  refine ⟨Nat.lt_of_lt_of_le hs.known (submitted_le_step h),
    cancelled_step h hs.known hs.cancelled, ?_, ?_, fun w r hr => ?_, fun w hw => ?_⟩
  · generalize s'.task p = task at htouch ⊢
    cases htouch with
    | leave => exact hs.idle
    | create => rfl
    | mark => exact hs.idle
    | run w _ hc => simp [hs.cancelled] at hc
    | finalize w result _ => rw [taskFinalize]; split <;> exact hs.idle
    | free => exact hs.idle
  · generalize s'.task p = task at htouch ⊢
    cases htouch with
    | leave => exact hs.results
    | create => simp [taskCreate]
    | mark => exact hs.results
    | run => exact hs.results
    | finalize w result hw =>
        have hnew := hs.finalizing hw
        have hold := hs.results
        rw [taskFinalize]
        split
        · simpa [or_imp, forall_and, hnew] using hold
        · exact hold
    | free => exact hs.results
  · have hobtain := obtains_step h hr
    generalize s'.worker w = pc at hobtain hr
    cases hobtain with
    | keep => exact hs.inHand w r hr
    | skip => cases hr; rfl
    | act result hw => exact absurd hw (hs.notRunning w)
    | check result hw =>
        have hold : result = ECANCELED := hs.inHand w result (by rw [hw]; rfl)
        cases hr
        rw [hold, ite_self]
  · rcases action_step h hw with hw | ⟨-, hc⟩
    · exact hs.notRunning w hw
    · simp [hs.cancelled] at hc

/-- A doomed task stays so along every continuation of the run. -/
theorem doomed_path {s s' : State n m} {ls} {p : TaskId} (hp : (system n m).Path s ls s')
    (hs : Doomed s p) : Doomed s' p :=
  hp.preserves (P := fun s => Doomed s p) hs fun _ _ _ => doomed_step

/-- A task that no worker has begun with was not called back. -/
theorem Counted.untouched {task : Task} {l : Life n} (h : Counted task l)
    (ha : l.actions = 0) (hf : l.finalizations = 0) :
    task.actionRuns = 0 ∧ task.results = [] :=
  ⟨h.actions.trans ha, List.eq_nil_of_length_eq_zero (by rw [h.results, hf, ite_self])⟩

/-- What a worker has in hand is the task it works on. -/
theorem WorkerPc.task?_of_result? {pc : WorkerPc} {t : TaskId} {r : Int}
    (h : pc.result? = some (t, r)) : pc.task? = some t := by
  cases pc <;> cases h <;> rfl

/-- What `executor_cancel` finds in the pending queue still waits. -/
theorem waiting_of_pending {s : State n m} {a : TaskId → Life n} (hc : Control s)
    (ha : Refines s a) {τ : Thread n m} (hcall : (s.call τ).inProgress = true)
    (hl : s.CanLock τ) {p : TaskId} (hp : p ∈ s.pending) : a p = .waiting := by
  have hq : s.queued = s.pending :=
    State.queued_eq_pending (clearRest?_of_canLock hc hcall hl)
  exact (ha.queue.waiting p).2 (hq ▸ hp)

/-- A waiting task that is marked is doomed. -/
theorem Refines.doomed_of_waiting {s : State n m} {a : TaskId → Life n} (ha : Refines s a)
    {τ : Thread n m} {pc : CallPc} {p : TaskId} (hp : a p = .waiting) :
    Doomed ((s.setCall τ pc).mark .cancel p) p := by
  have hfree : ∀ w, (s.worker w).task? ≠ some p := fun w hw => by
    obtain ⟨b, f, hlife⟩ := (ha.workers w).life hw
    rw [hp] at hlife
    cases hlife
  obtain ⟨hruns, hresults⟩ := (ha.counted p).untouched (by rw [hp]; rfl) (by rw [hp]; rfl)
  refine ⟨?_, by simp, by simpa using hruns, by simp [hresults], fun w r hr => ?_, fun w hw => ?_⟩
  · exact Nat.lt_of_not_le fun hle => by simp [(ha.queue.absent p).2 hle] at hp
  · exact absurd (WorkerPc.task?_of_result? hr) (hfree w)
  · have hw : s.worker w = .action p := hw
    exact absurd (by rw [hw]; rfl) (hfree w)

/-- A task whose worker is about to read the flag is doomed once it is marked. -/
theorem Refines.doomed_of_readCancelled {s : State n m} {a : TaskId → Life n} (ha : Refines s a)
    {τ : Thread n m} {pc : CallPc} {p : TaskId} {v : Fin n} (hv : s.worker v = .readCancelled p) :
    Doomed ((s.setCall τ pc).mark .cancel p) p := by
  have htask : (s.worker v).task? = some p := by rw [hv]; rfl
  have hlife : a p = .held v false false := by
    have := (ha.workers v).stage p htask
    rwa [hv] at this
  have honly : ∀ w, (s.worker w).task? = some p → s.worker w = .readCancelled p := fun w hw => by
    rwa [ha.worker_unique hw htask]
  obtain ⟨hruns, hresults⟩ := (ha.counted p).untouched (by rw [hlife]; rfl) (by rw [hlife]; rfl)
  refine ⟨?_, by simp, by simpa using hruns, by simp [hresults], fun w r hr => ?_, fun w hw => ?_⟩
  · exact Nat.lt_of_not_le fun hle => by simp [(ha.queue.absent p).2 hle] at hlife
  · have hw := honly w (WorkerPc.task?_of_result? hr)
    change (s.worker w).result? = _ at hr
    rw [hw] at hr
    cases hr
  · have hw : s.worker w = .action p := hw
    have := honly w (by rw [hw]; rfl)
    rw [hw] at this
    cases this

/-- `executor_cancel` that marks a task in time returns 1 and dooms the task. -/
theorem doomed_of_cancels {s s' : State n m} (hs : (system n m).Reachable s) {τ : Thread n m}
    {h p : TaskId} (hmark : Cancels s τ h p) (hstep : Step s (.call τ) s') :
    s'.call τ = .returned (.cancel (some h) 1) ∧ Doomed s' p := by
  have hc := control_of_reachable hs
  obtain ⟨a, ha⟩ := exists_refines hs
  have hbusy : (s.call τ).inProgress = true := by
    rcases hmark with ⟨hcall, -⟩ | ⟨hcall, -⟩ <;> rw [hcall] <;> rfl
  have hmay : ¬s.MayCall τ := fun hmay => by simp [hmay.1] at hbusy
  cases hstep
  case pendingHit q h' p' hfind' hcall' hl =>
    obtain ⟨hcall, hfind⟩ | ⟨hcall, -⟩ := hmark
    · obtain ⟨rfl, rfl⟩ : .cancel = q ∧ h = h' := by simpa using hcall.symm.trans hcall'
      obtain rfl : p = p' := Option.some.inj (hfind.symm.trans hfind')
      have hp := waiting_of_pending hc ha hbusy hl (List.mem_of_find?_eq_some hfind)
      exact ⟨by simp [State.hit], ha.doomed_of_waiting hp⟩
    · cases hcall.symm.trans hcall'
  case activeHit q h' p' hfind' hcall' =>
    obtain ⟨hcall, -⟩ | ⟨hcall, hfind, v, hv⟩ := hmark
    · cases hcall.symm.trans hcall'
    · obtain ⟨rfl, rfl⟩ : .cancel = q ∧ h = h' := by simpa using hcall.symm.trans hcall'
      obtain rfl : p = p' := Option.some.inj (hfind.symm.trans hfind')
      exact ⟨by simp [State.hit], ha.doomed_of_readCancelled hv⟩
  all_goals first
    | exact absurd ‹s.MayCall τ› hmay
    | grind [Cancels]

/-! ## The recorded run -/

/-- What a run did with each task. -/
structure Record where
  /-- What the action returned. -/
  returned : TaskId → Option Int
  /-- What `destroyed` was at the check after the action, or after skipping it. -/
  checked : TaskId → Option Bool

/-- The record after a step from `s` to `s'`. -/
def Record.next (rec : Record) (s : State n m) (l : Label n m) (s' : State n m) : Record :=
  match l with
  | .callback w =>
      match s.worker w, s'.worker w with
      | .action t, .recheck _ result => { rec with returned := update rec.returned t (some result) }
      | _, _ => rec
  | .worker w =>
      match s.worker w with
      | .recheck t _ => { rec with checked := update rec.checked t (some s.destroyed) }
      | _ => rec
  | _ => rec

/-- The executor with a record of its run. -/
def recorded (n m : Nat) : TransitionSystem (State n m × Record) (Label n m) where
  init x := x = (executorCreate n m, ⟨fun _ => none, fun _ => none⟩)
  step x l y := Step x.1 l y.1 ∧ y.2 = x.2.next x.1 l y.1

/-- A recorded run is a run. -/
theorem reachable_of_recorded {x : State n m × Record} (hx : (recorded n m).Reachable x) :
    (system n m).Reachable x.1 := by
  induction hx with
  | init h => exact .init (by rw [h]; rfl)
  | step _ h ih => exact .step ih h.1

/-- Every run can be recorded. -/
theorem recorded_of_reachable {s : State n m} (hs : (system n m).Reachable s) :
    ∃ rec, (recorded n m).Reachable (s, rec) := by
  induction hs with
  | init h => exact ⟨_, .init (congrArg (·, _) h)⟩
  | @step s s' l _ h ih =>
      obtain ⟨rec, hrec⟩ := ih
      have hstep : (recorded n m).step (s, rec) l (s', rec.next s l s') := ⟨h, rfl⟩
      exact ⟨_, .step hrec hstep⟩

/-- The result a task is to be finalized with: what its action returned, if it
was invoked and the executor was not destroyed at the check after it. -/
def Record.Accounts (rec : Record) (task : Task) (t : TaskId) (result : Int) : Prop :=
  if task.actionRuns ≠ 0 ∧ rec.checked t = some false then rec.returned t = some result
  else result = ECANCELED

/-- The result before the check: what the action returned, if it was invoked. -/
def Record.AccountsSoFar (rec : Record) (task : Task) (t : TaskId) (result : Int) : Prop :=
  if task.actionRuns ≠ 0 then rec.returned t = some result else result = ECANCELED

/-- The results in hand and those of the finalizers are accounted for. -/
structure Accounted (s : State n m) (rec : Record) : Prop where
  recheck : ∀ w t r, s.worker w = .recheck t r → rec.AccountsSoFar (s.task t) t r
  finalize : ∀ w t r, s.worker w = .finalize t r → rec.Accounts (s.task t) t r
  results : ∀ t, ∀ r ∈ (s.task t).results, rec.Accounts (s.task t) t r

/-! ### What goes on record -/

/-- The task whose result is not decided yet. -/
def WorkerPc.deciding? : WorkerPc → Option TaskId
  | .readCancelled t | .action t | .recheck t _ => some t
  | _ => none

theorem WorkerPc.task?_of_deciding? {pc : WorkerPc} {t : TaskId} (h : pc.deciding? = some t) :
    pc.task? = some t := by
  cases pc <;> cases h <;> rfl

/-- The result of the action is recorded when it returns. -/
theorem Record.next_act (rec : Record) {s s' : State n m} {w : Fin n} {t : TaskId} {r : Int}
    (hw : s.worker w = .action t) (hw' : s'.worker w = .recheck t r) :
    (rec.next s (.callback w) s').returned t = some r := by
  simp [next, hw, hw']

/-- The check is recorded when it is made. -/
theorem Record.next_check (rec : Record) {s : State n m} (s' : State n m) {w : Fin n}
    {t : TaskId} {r : Int}
    (hw : s.worker w = .recheck t r) :
    (rec.next s (.worker w) s').checked t = some s.destroyed ∧
      (rec.next s (.worker w) s').returned t = rec.returned t := by
  simp [next, hw]

/-- Nothing else is recorded as returned. -/
theorem Record.next_returned (rec : Record) {s s' : State n m} {l} {t : TaskId}
    (ht : ∀ w, s.worker w ≠ .action t) : (rec.next s l s').returned t = rec.returned t := by
  cases l <;> simp only [next]
  case worker w => split <;> rfl
  case callback w =>
    split
    · next u _ _ hw _ =>
        have hne : t ≠ u := fun htu => ht w (htu ▸ hw)
        exact Function.update_of_ne hne _ _
    · rfl

/-- Nothing else is recorded as checked. -/
theorem Record.next_checked (rec : Record) {s s' : State n m} {l} {t : TaskId}
    (ht : ∀ w r, s.worker w ≠ .recheck t r) :
    (rec.next s l s').checked t = rec.checked t := by
  cases l <;> simp only [next]
  case worker w =>
    split
    · next u r hw =>
        have hne : t ≠ u := fun htu => ht w r (htu ▸ hw)
        exact Function.update_of_ne hne _ _
    · rfl
  case callback w => split <;> rfl

/-- The action of a task is invoked only by a worker that has read its flag. -/
theorem actionRuns_step {s s' : State n m} {l} {a : TaskId → Life n} (ha : Refines s a)
    (h : Step s l s') {t : TaskId}
    (ht : ∀ w, s.worker w = .readCancelled t → (s.task t).cancelled = true) :
    (s'.task t).actionRuns = (s.task t).actionRuns := by
  have htouch := touches_step h t
  generalize s'.task t = task at htouch ⊢
  cases htouch with
  | create _ _ hnew =>
      have hlife : a t = .absent := (ha.queue.absent t).2 (Nat.le_of_eq hnew.symm)
      exact ((ha.counted t).untouched (by rw [hlife]; rfl) (by rw [hlife]; rfl)).1.symm
  | run w hw hc => simp [ht w hw] at hc
  | finalize w r _ => rw [taskFinalize]; split <;> rfl
  | leave => rfl
  | mark => rfl
  | free => rfl

/-- A task whose result is decided keeps its account. -/
theorem accounts_frame {s s' : State n m} {l} {a : TaskId → Life n} (ha : Refines s a)
    {rec : Record} (h : Step s l s') {t : TaskId} {r : Int}
    (ht : ∀ w, (s.worker w).deciding? ≠ some t) (hr : rec.Accounts (s.task t) t r) :
    (rec.next s l s').Accounts (s'.task t) t r := by
  have hruns := actionRuns_step ha h fun w hw => absurd (by rw [hw]; rfl) (ht w)
  have hreturned : (rec.next s l s').returned t = rec.returned t :=
    rec.next_returned fun w hw => absurd (by rw [hw]; rfl) (ht w)
  have hchecked : (rec.next s l s').checked t = rec.checked t :=
    rec.next_checked fun w r hw => absurd (by rw [hw]; rfl) (ht w)
  simpa only [Record.Accounts, hruns, hreturned, hchecked] using hr

/-- A worker that is past the decision is the only one with the task. -/
theorem Refines.decided {s : State n m} {a : TaskId → Life n} (ha : Refines s a) {w : Fin n}
    {t : TaskId} (hw : (s.worker w).task? = some t) (hpc : (s.worker w).deciding? = none)
    (v : Fin n) : (s.worker v).deciding? ≠ some t := by
  intro hv
  obtain rfl := ha.worker_unique hw (WorkerPc.task?_of_deciding? hv)
  rw [hpc] at hv
  cases hv

/-- The result of a finalized task is decided. -/
theorem Refines.decided_of_results {s : State n m} {a : TaskId → Life n} (ha : Refines s a)
    {t : TaskId} (hr : (s.task t).results ≠ []) (v : Fin n) :
    (s.worker v).deciding? ≠ some t := by
  intro hv
  have hstage := (ha.workers v).stage t (WorkerPc.task?_of_deciding? hv)
  have hlife : (a t).finalizations = 0 := by
    cases hpc : s.worker v <;> rw [hpc] at hv hstage <;> cases hv
    case readCancelled => rw [hstage]; rfl
    case action => rw [hstage]; rfl
    case recheck =>
      obtain ⟨b, hb⟩ := hstage
      rw [hb]; rfl
  refine hr (List.eq_nil_of_length_eq_zero ?_)
  rw [(ha.counted t).results, hlife, ite_self]

/-! ### The account of every result -/

/-- Every step keeps the results before the check accounted for. -/
theorem recheck_step {s s' : State n m} {l} {a : TaskId → Life n} (ha : Refines s a)
    {rec : Record} (hs : Accounted s rec) (h : Step s l s') {w : Fin n} {t : TaskId} {r : Int}
    (hw : s'.worker w = .recheck t r) :
    (rec.next s l s').AccountsSoFar (s'.task t) t r := by
  have hobtain : Obtains s w t l (s'.worker w) := obtains_step h (r := r) (by rw [hw]; rfl)
  rw [hw] at hobtain
  -- No other worker has the task.
  have hother : ∀ {pc}, (s.worker w).task? = some t → pc.task? = some t → s.worker w ≠ pc →
      ∀ v, s.worker v ≠ pc := fun htask hpc hne v hv =>
    hne (ha.worker_unique htask (by rw [hv, hpc]) ▸ hv)
  generalize hpc : WorkerPc.recheck t r = pc at hobtain
  cases hobtain with
  | keep =>
      have htask : (s.worker w).task? = some t := by rw [← hpc]; rfl
      have hold := hs.recheck w t r hpc.symm
      have hruns := actionRuns_step ha h fun v hv =>
        absurd hv (hother htask rfl (by rw [← hpc]; simp) v)
      have hreturned : (rec.next s l s').returned t = rec.returned t :=
        rec.next_returned (hother htask rfl (by rw [← hpc]; simp))
      simpa only [Record.AccountsSoFar, hruns, hreturned] using hold
  | skip hread hc =>
      cases hpc
      have hlife : a t = .held w false false := by
        have := (ha.workers w).stage t (by rw [hread]; rfl)
        rwa [hread] at this
      have hidle := ((ha.counted t).untouched (by rw [hlife]; rfl) (by rw [hlife]; rfl)).1
      have hruns := actionRuns_step ha h (t := t) fun _ _ => hc
      simp [Record.AccountsSoFar, hruns, hidle]
  | act result hact =>
      cases hpc
      have hlife : a t = .held w true false := by
        have := (ha.workers w).stage t (by rw [hact]; rfl)
        rwa [hact] at this
      have hran : (s.task t).actionRuns = 1 := by rw [(ha.counted t).actions, hlife]; rfl
      have hruns := actionRuns_step ha h fun v hv =>
        absurd hv (hother (by rw [hact]; rfl) rfl (by rw [hact]; simp) v)
      simp [Record.AccountsSoFar, hruns, hran, rec.next_act hact hw]
  | check => cases hpc

/-- Every step keeps the results after the check accounted for. -/
theorem finalize_step {s s' : State n m} {l} {a : TaskId → Life n} (ha : Refines s a)
    {rec : Record} (hs : Accounted s rec) (h : Step s l s') {w : Fin n} {t : TaskId} {r : Int}
    (hw : s'.worker w = .finalize t r) : (rec.next s l s').Accounts (s'.task t) t r := by
  have hobtain : Obtains s w t l (s'.worker w) := obtains_step h (r := r) (by rw [hw]; rfl)
  rw [hw] at hobtain
  generalize hpc : WorkerPc.finalize t r = pc at hobtain
  cases hobtain with
  | keep =>
      have hdecided := ha.decided (t := t) (by rw [← hpc]; rfl) (by rw [← hpc]; rfl)
      exact accounts_frame ha h hdecided (hs.finalize w t r hpc.symm)
  | skip => cases hpc
  | act => cases hpc
  | check result hcheck =>
      cases hpc
      have hruns := actionRuns_step ha h fun v hv => by
        have := ha.worker_unique (t := t) (by rw [hcheck]; rfl) (by rw [hv]; rfl)
        rw [← this, hcheck] at hv
        cases hv
      obtain ⟨hchecked, hreturned⟩ := rec.next_check s' hcheck
      have hsofar := hs.recheck w t result hcheck
      cases hd : s.destroyed <;>
        simp_all [Record.Accounts, Record.AccountsSoFar]

/-- What a worker is about to finalize a task with is accounted for. -/
theorem accounts_of_finalizing {s : State n m} {a : TaskId → Life n} (ha : Refines s a)
    {rec : Record} (hs : Accounted s rec) {w : Fin n} {t : TaskId} {r : Int}
    (hw : (s.worker w).finalizing? = some (t, r)) : rec.Accounts (s.task t) t r := by
  -- A task that is finalized without a check was not acted on.
  have hidle : ∀ {pc}, s.worker w = pc → pc.task? = some t →
      pc.Stage w (a t) = (a t = .held w false false) → rec.Accounts (s.task t) t ECANCELED := by
    intro pc hpc htask hstage
    have hlife := (ha.workers w).stage t (by rw [hpc, htask])
    rw [hpc, hstage] at hlife
    have := ((ha.counted t).untouched (by rw [hlife]; rfl) (by rw [hlife]; rfl)).1
    simp [Record.Accounts, this]
  cases hpc : s.worker w <;> rw [hpc] at hw <;> cases hw
  case finalize => exact hs.finalize w t r hpc
  case finalizeLast => exact hidle hpc rfl rfl
  case clearFinalize => exact hidle hpc rfl rfl

/-- Every step keeps the results of the finalizers accounted for. -/
theorem results_step {s s' : State n m} {l} {a : TaskId → Life n} (ha : Refines s a)
    {rec : Record} (hs : Accounted s rec) (h : Step s l s') {t : TaskId} {r : Int}
    (hr : r ∈ (s'.task t).results) : (rec.next s l s').Accounts (s'.task t) t r := by
  have hold : r ∈ (s.task t).results → (rec.next s l s').Accounts (s'.task t) t r := fun hr =>
    accounts_frame ha h (ha.decided_of_results (List.ne_nil_of_mem hr)) (hs.results t r hr)
  have htouch := touches_step h t
  generalize htask : s'.task t = task at htouch hr
  rw [htask] at hold
  cases htouch with
  | leave => exact hold hr
  | create => simp [taskCreate] at hr
  | mark => exact hold hr
  | run => exact hold hr
  | free => exact hold hr
  | finalize w result hw =>
      have hr : r ∈ (s.task t).results ∨ r = result := by
        rw [taskFinalize] at hr
        split at hr
        · simpa using hr
        · exact .inl hr
      rcases hr with hr | rfl
      · exact hold hr
      · rw [← htask]
        have hdecided : (s.worker w).task? = some t ∧ (s.worker w).deciding? = none := by
          cases hpc : s.worker w <;> rw [hpc] at hw <;> cases hw <;> exact ⟨rfl, rfl⟩
        exact accounts_frame ha h (ha.decided hdecided.1 hdecided.2)
          (accounts_of_finalizing ha hs hw)

/-- Every step keeps the run accounted for. -/
theorem accounted_step {s s' : State n m} {l} {a : TaskId → Life n} (ha : Refines s a)
    {rec : Record} (hs : Accounted s rec) (h : Step s l s') : Accounted s' (rec.next s l s') :=
  ⟨fun _ _ _ => recheck_step ha hs h, fun _ _ _ => finalize_step ha hs h,
    fun _ _ => results_step ha hs h⟩

/-- Every recorded run is accounted for. -/
theorem accounted_of_reachable {x : State n m × Record} (hx : (recorded n m).Reachable x) :
    Accounted x.1 x.2 := by
  refine hx.invariant (P := fun x => Accounted x.1 x.2) ?_ ?_
  · rintro x rfl
    exact ⟨by simp [executorCreate], by simp [executorCreate],
      by simp [executorCreate, taskCreate]⟩
  · rintro x l y hr hs ⟨h, hrec⟩
    obtain ⟨a, ha⟩ := exists_refines (reachable_of_recorded hr)
    rw [hrec]
    exact accounted_step ha hs h

/-- **Cancellation and results**: in every run, a task that `executor_cancel`
marks in the pending queue, or in the active queue before its worker read the
flag, is never acted on and is finalized with `ECANCELED` only; and every task
is finalized with what its action returned if it was invoked and the executor
was not destroyed at the check after it, and with `ECANCELED` otherwise. -/
theorem cancelled_results {x : State n m × Record} (hx : (recorded n m).Reachable x) :
    (∀ τ h p s', Cancels x.1 τ h p → Step x.1 (.call τ) s' →
      s'.call τ = .returned (.cancel (some h) 1) ∧
        ∀ ls s'', (system n m).Path s' ls s'' →
          (s''.task p).actionRuns = 0 ∧ ∀ r ∈ (s''.task p).results, r = ECANCELED) ∧
      ∀ t, ∀ r ∈ (x.1.task t).results,
        if (x.1.task t).actionRuns ≠ 0 ∧ x.2.checked t = some false then
          x.2.returned t = some r
        else r = ECANCELED := by
  refine ⟨fun τ h p s' hmark hstep => ?_, (accounted_of_reachable hx).results⟩
  obtain ⟨hcall, hdoomed⟩ := doomed_of_cancels (reachable_of_recorded hx) hmark hstep
  refine ⟨hcall, fun ls s'' hp => ?_⟩
  have hdoomed := doomed_path hp hdoomed
  exact ⟨hdoomed.idle, hdoomed.results⟩

/-- One worker runs a task whose action returns 7; then a second task is
submitted, and `executor_cancel` finds it in the pending queue. -/
theorem exists_cancels : ∃ s : State 1 1, (system 1 1).Reachable s ∧
    (s.task 0).results = [7] ∧ s.call (.outside 0) = .scanPending .cancel 1 ∧
      s.CanLock (.outside 0) ∧ s.tasksFindBy s.pending 1 = some 1 := by
  have h : (system 1 1).Reachable (executorCreate 1 1) := .init rfl
  have h := reachable_step (.call (.outside 0)) h (.submitAccepted true ⟨rfl, rfl⟩ rfl)
  have h := reachable_step (.call (.outside 0)) h
    (.submitPush 16 rfl (by rintro w ⟨⟩) (by rintro t ⟨⟩))
  have h := reachable_step (.call (.outside 0)) h (.submitSignalLost rfl (by rintro w ⟨⟩))
  have h := reachable_step (.worker 0) h (.pollLock rfl rfl)
  have h := reachable_step (.worker 0) h (.pollTake rfl rfl)
  have h := reachable_step (.worker 0) h (.checkAlive rfl rfl)
  have h := reachable_step (.worker 0) h (.pushActive rfl)
  have h := reachable_step (.worker 0) h (.runAction rfl rfl)
  have h := reachable_step (.callback 0) h (.actionReturn 7 rfl rfl)
  have h := reachable_step (.worker 0) h (.recheck rfl)
  have h := reachable_step (.worker 0) h (.finalize rfl)
  have h := reachable_step (.call (.outside 0)) h (.submitAccepted true ⟨rfl, rfl⟩ rfl)
  have h := reachable_step (.call (.outside 0)) h
    (.submitPush 32 rfl (by rintro w ⟨⟩) (by rintro _ (_ | ⟨⟨⟩⟩) -; decide))
  have h := reachable_step (.call (.outside 0)) h (.submitSignalLost rfl (by decide))
  have h := reachable_step (.call (.outside 0)) h
    (.queryAccepted .cancel 1 ⟨rfl, rfl⟩ rfl (by decide))
  have h := reachable_step (.call (.outside 0)) h (.activeMiss rfl rfl)
  exact ⟨_, h, rfl, rfl, by rintro w ⟨⟩, rfl⟩

/-- The first task is finalized with what its action returned, and the second
one is never acted on. -/
theorem cancelled_results_second : ∃ x : State 1 1 × Record, (recorded 1 1).Reachable x ∧
    (x.2.checked 0 = some false ∧ x.2.returned 0 = some 7) ∧
    ∃ s', Step x.1 (.call (.outside 0)) s' ∧
      s'.call (.outside 0) = .returned (.cancel (some 1) 1) ∧
      ∀ ls s'', (system 1 1).Path s' ls s'' → (s''.task 1).actionRuns = 0 := by
  obtain ⟨s, hs, hresults, hcall, hl, hfind⟩ := exists_cancels
  obtain ⟨rec, hrec⟩ := recorded_of_reachable hs
  obtain ⟨hcancel, hall⟩ := cancelled_results hrec
  have hstep := Step.pendingHit hcall hl hfind
  obtain ⟨hret, hpath⟩ := hcancel _ _ _ _ (.inl ⟨hcall, hfind⟩) hstep
  refine ⟨(s, rec), hrec, ?_, _, hstep, hret, fun ls s'' hp => (hpath ls s'' hp).1⟩
  have haccount := hall 0 7 (by rw [hresults]; exact List.mem_singleton_self 7)
  split at haccount
  · next hcheck => exact ⟨hcheck.2, haccount⟩
  · cases haccount

end CommonsC.Executor
