import CommonsC.Executor.Control

/-!
# CommonsC.Executor.Shutdown

The wake-up that `executor_destroy` sends to the idle workers.  It broadcasts
`pending.cond` without holding `pending.lock`, so a worker of `queue_poll` that
has read `destroyed` as false and has not started to wait misses it.
`no_lost_wakeup` shows that this is the only way to lose the wake-up:
if no worker is at that point when the broadcast is made, none is ever blocked
again.
-/

namespace CommonsC.Executor

variable {n m : Nat}

/-! ## After the broadcast -/

/-- `executor_destroy` has broadcast `pending.cond`. -/
def DestroyPc.pastBroadcast : DestroyPc → Bool
  | .join | .joined => true
  | _ => false

/-- The worker waits on `pending.cond`, or is about to. -/
def WorkerPc.blocking : WorkerPc → Bool
  | .pollWait | .waiting => true
  | _ => false

attribute [grind] DestroyPc.pastBroadcast WorkerPc.blocking

/-- The broadcast leaves only those workers blocking that were about to wait. -/
theorem WorkerPc.blocking_wake {pc : WorkerPc} (h : pc ≠ .pollWait) :
    pc.wake.blocking = false := by
  cases pc <;> simp_all [wake, blocking]

/-- The wake-up reached everyone: after the broadcast no worker waits or is
about to. -/
def Woken (s : State n m) : Prop :=
  s.destroyer.pastBroadcast = true → ∀ w, (s.worker w).blocking = false

/-- The step does not broadcast `pending.cond` for the shutdown while a worker
is between its test of `destroyed` and its wait. -/
def BroadcastSeen (s : State n m) (l : Label n m) : Prop :=
  l = .destroy → s.destroyer = .broadcastPending → ∀ w, s.worker w ≠ .pollWait

/-- No worker starts to wait once `destroyed` is set. -/
theorem blocking_step {s s' : State n m} {l} (hc : Control s) (h : Step s l s')
    (hd : s.destroyer.pastBroadcast = true) (hs : ∀ w, (s.worker w).blocking = false)
    (w : Fin n) : (s'.worker w).blocking = false := by
  have hdestroyed : s.destroyed = true := hc.destroyed_iff.2 fun h => by
    rw [h] at hd
    cases hd
  have := hs w
  cases h <;> grind

/-- The broadcast is never taken back. -/
theorem pastBroadcast_step {s s' : State n m} {l} (h : Step s l s')
    (hd : s.destroyer.pastBroadcast = true) : s'.destroyer.pastBroadcast = true := by
  cases h <;> grind

/-- The only step that ends up past the broadcast is the broadcast itself. -/
theorem broadcast_of_pastBroadcast {s s' : State n m} {l} (h : Step s l s')
    (hd : s.destroyer.pastBroadcast = false) (hd' : s'.destroyer.pastBroadcast = true) :
    l = .destroy ∧ s.destroyer = .broadcastPending ∧ s'.worker = fun w => (s.worker w).wake := by
  cases h <;> grind

/-- A step that does not lose the wake-up keeps the workers woken. -/
theorem woken_step {s s' : State n m} {l} (hc : Control s) (hs : Woken s)
    (hseen : BroadcastSeen s l) (h : Step s l s') : Woken s' := by
  intro hd' w
  cases hd : s.destroyer.pastBroadcast with
  | true => exact blocking_step hc h hd (hs hd) w
  | false =>
      obtain ⟨hl, hb, hw⟩ := broadcast_of_pastBroadcast h hd hd'
      have hpc : s.worker w ≠ .pollWait := hseen hl hb w
      rw [hw]
      exact WorkerPc.blocking_wake hpc

/-- In every run that does not lose the wake-up, the broadcast wakes everyone. -/
theorem woken_of_reachable {s : State n m}
    (hs : ((system n m).restrict BroadcastSeen).Reachable s) : Woken s :=
  hs.invariant (fun s h hd => by subst h; cases hd) fun _ _ _ hr hw h =>
    woken_step (control_of_reachable hr.of_restrict) hw h.1 h.2

/-- Once the broadcast woke everyone, no continuation of the run blocks a
worker again. -/
theorem blocking_path {s s' : State n m} {ls} (hp : (system n m).Path s ls s')
    (hs : (system n m).Reachable s) (hd : s.destroyer.pastBroadcast = true) (hw : Woken s)
    (w : Fin n) : (s'.worker w).blocking = false := by
  induction hp with
  | nil => exact hw hd w
  | cons hl _ ih =>
      have hd' := pastBroadcast_step hl hd
      exact ih (hs.step hl) hd' fun _ => blocking_step (control_of_reachable hs) hl hd (hw hd)

/-! ## The lost wake-up -/

/-- A broadcast made while a worker is about to wait does not reach it. -/
theorem lost_wakeup {s : State n m} (h : ¬BroadcastSeen s .destroy) :
    ∃ ls s', (system n m).Path s ls s' ∧ s'.destroyer.pastBroadcast = true ∧
      ∃ w, s'.worker w = .waiting := by
  obtain ⟨hb, w, hw⟩ : s.destroyer = .broadcastPending ∧ ∃ w, s.worker w = .pollWait := by
    simpa [BroadcastSeen] using h
  have hwait : ∃ s', Step { s with worker := fun w => (s.worker w).wake, destroyer := .join }
      (.worker w) s' ∧ s'.destroyer = .join ∧ s'.worker w = .waiting :=
    ⟨_, .condWait (by simp [hw, WorkerPc.wake]), rfl, by simp⟩
  obtain ⟨s', hstep, hd, hw'⟩ := hwait
  exact ⟨_, s', .cons (.destroyBroadcastPending hb) (.cons hstep (.nil _)), by rw [hd]; rfl, w, hw'⟩

/-- When all workers wait and nobody is in a call, `executor_destroy` does not
return: without a signal a worker only leaves its wait spuriously. -/
theorem stuck_of_waiting {s s' : State n m} {l} (hd : s.destroyer = .join)
    (hw : ∀ w, s.worker w = .waiting) (hn : 0 < n)
    (hcall : ∀ τ, (s.call τ).inProgress = false) (h : Step s l s') : ∃ w, l = .spurious w := by
  have hdone : ∃ w, s.worker w ≠ .done := ⟨⟨0, hn⟩, by simp [hw]⟩
  have hmay : ∀ τ, ¬s.MayCall τ := by
    rintro (w | c) ⟨-, hmay⟩
    · simp [State.InCallback, hw] at hmay
    · simp [hd] at hmay
  cases h <;> grind

/-- **The shutdown wake-up**: in a run where no worker is between its test of
`destroyed` and its wait when `executor_destroy` broadcasts `pending.cond`, no
worker is blocked after the broadcast, nor in any continuation.  A broadcast
made while a worker is at that point is lost. -/
theorem no_lost_wakeup (n m : Nat) :
    (∀ s, ((system n m).restrict BroadcastSeen).Reachable s →
      s.destroyer.pastBroadcast = true →
      ∀ ls s', (system n m).Path s ls s' → ∀ w, s'.worker w ≠ .waiting) ∧
    ∀ s, (system n m).Reachable s → ¬BroadcastSeen s .destroy →
      ∃ ls s', (system n m).Path s ls s' ∧ s'.destroyer.pastBroadcast = true ∧
        ∃ w, s'.worker w = .waiting := by
  refine ⟨fun s hs hd ls s' hp w hw => ?_, fun s _ h => lost_wakeup h⟩
  have := blocking_path hp hs.of_restrict hd (woken_of_reachable hs) w
  rw [hw] at this
  cases this

/-- A worker that sleeps when `executor_destroy` begins is woken for good. -/
theorem no_lost_wakeup_sleeping : ∃ s : State 1 0, (system 1 0).Reachable s ∧
    s.destroyer = .join ∧ ∀ ls s', (system 1 0).Path s ls s' → s'.worker 0 ≠ .waiting := by
  have h : ((system 1 0).restrict BroadcastSeen).Reachable (executorCreate 1 0) := .init rfl
  have h := restrict_step (.worker 0) h (by rintro ⟨⟩) (.pollLock rfl rfl)
  have h := restrict_step (.worker 0) h (by rintro ⟨⟩) (.pollEmpty rfl rfl)
  have h := restrict_step (.worker 0) h (by rintro ⟨⟩) (.pollAlive rfl rfl)
  have h := restrict_step (.worker 0) h (by rintro ⟨⟩) (.condWait rfl)
  have h := restrict_step .destroy h (by rintro - ⟨⟩) (.destroySet rfl fun c => c.elim0)
  have h := restrict_step .destroy h (by rintro - ⟨⟩) (.destroyBroadcastActive rfl)
  have h := restrict_step .destroy h (fun _ _ => by decide) (.destroyBroadcastPending rfl)
  exact ⟨_, h.of_restrict, rfl, fun ls s' hp => (no_lost_wakeup 1 0).1 _ h rfl ls s' hp 0⟩

/-- A worker reads `destroyed` before `executor_destroy` sets it and starts to
wait after the broadcast: it sleeps, and `executor_destroy` is stuck in its join. -/
theorem wakeup_lost_by_one_worker : ∃ s : State 1 0, (system 1 0).Reachable s ∧
    s.destroyer = .join ∧ s.worker 0 = .waiting ∧
      ∀ l s', Step s l s' → ∃ w, l = .spurious w := by
  have h : (system 1 0).Reachable (executorCreate 1 0) := .init rfl
  have h := reachable_step (.worker 0) h (.pollLock rfl rfl)
  have h := reachable_step (.worker 0) h (.pollEmpty rfl rfl)
  have h := reachable_step (.worker 0) h (.pollAlive rfl rfl)
  have h := reachable_step .destroy h (.destroySet rfl fun c => c.elim0)
  have h := reachable_step .destroy h (.destroyBroadcastActive rfl)
  have h := reachable_step .destroy h (.destroyBroadcastPending rfl)
  have h := reachable_step (.worker 0) h (.condWait rfl)
  refine ⟨_, h, rfl, rfl, fun l s' hstep => ?_⟩
  exact stuck_of_waiting rfl (by decide) (numThreads_pos 1 Nat.one_pos)
    (by rintro (_ | _) <;> rfl) hstep

end CommonsC.Executor
