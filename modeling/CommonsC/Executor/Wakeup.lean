import CommonsC.Executor.Control

/-!
# CommonsC.Executor.Wakeup

Submitted work is not stranded.  `executor_submit` signals `pending.cond` after
it has released `pending.lock`, so a signal can come late, go to a worker that
finds the queue empty again, or be lost because nobody waits.  Still a live
executor with a non-empty pending queue always has a worker that is up, or a
submission whose signal is still to come: a worker only goes to sleep while it
holds the lock on an empty queue.
-/

namespace CommonsC.Executor

open Function (update)

variable {n m : Nat}

/-- The worker has found the pending queue empty and still holds its lock. -/
def WorkerPc.foundEmpty : WorkerPc → Bool
  | .pollDestroyed | .pollWait => true
  | _ => false

@[simp] theorem WorkerPc.foundEmpty_wake (pc : WorkerPc) :
    pc.wake.foundEmpty = pc.foundEmpty := by
  cases pc <;> rfl

/-- Such a worker is not in a callback. -/
theorem WorkerPc.holds_of_foundEmpty {pc : WorkerPc} (h : pc.foundEmpty = true) :
    pc.holds = true ∧ pc.calling = false := by
  cases pc <;> first
    | exact ⟨rfl, rfl⟩
    | cases h

/-- What a worker found empty is empty. -/
def FoundEmpty (s : State n m) : Prop :=
  ∀ w, (s.worker w).foundEmpty = true → s.pending = []

/-- A thread that can append to the pending queue does so while no worker has
found it empty. -/
theorem foundEmpty_of_canLock {s : State n m} (hc : Control s) {τ : Thread n m}
    (hcall : (s.call τ).inProgress = true) (hl : s.CanLock τ) (w : Fin n) :
    (s.worker w).foundEmpty = false := by
  cases he : (s.worker w).foundEmpty with
  | false => rfl
  | true =>
      obtain ⟨hholds, hcalling⟩ := WorkerPc.holds_of_foundEmpty he
      -- The lock is the caller's own, and the caller is in a callback.
      obtain rfl := hl w ((hc.holder w).2 hholds)
      exact absurd (hc.calling w hcall) (by rw [hcalling]; nofun)

/-- Every step keeps the queue empty for the workers that found it so. -/
theorem foundEmpty_step {s s' : State n m} {l} (hc : Control s) (hs : FoundEmpty s)
    (h : Step s l s') : FoundEmpty s' := by
  have hset : ∀ {w pc}, (pc.foundEmpty = true → s.pending = []) →
      ∀ v, (update s.worker w pc v).foundEmpty = true → s.pending = [] := by
    intro w pc hpc
    exact (Function.forall_update_iff _
      fun _ (pc : WorkerPc) => pc.foundEmpty = true → s.pending = []).2
      ⟨hpc, fun v _ => hs v⟩
  cases h
  case pollTake w t ts hw hp =>
    intro v hv
    have hempty : s.pending = [] := hset (by rintro ⟨⟩) v hv
    rw [hp] at hempty
    cases hempty
  case pollEmpty w hw hp => exact hset fun _ => hp
  case pollAlive w hw hd => exact hset fun _ => hs w (by rw [hw]; rfl)
  case clearDone => exact fun _ _ => rfl
  case submitPush τ _ _ hcall hl _ =>
    intro v hv
    have := foundEmpty_of_canLock hc (by rw [hcall]; rfl) hl v
    exact absurd hv (by simpa using this)
  case destroyBroadcastPending =>
    exact fun v hv => hs v (by rwa [← WorkerPc.foundEmpty_wake])
  all_goals first
    | exact hs
    | exact hset nofun

/-- In every reachable state, what a worker found empty is empty. -/
theorem foundEmpty_of_reachable {s : State n m} (hs : (system n m).Reachable s) :
    FoundEmpty s :=
  hs.invariant (fun s h w hw => by subst h; cases hw) fun _ _ _ hr =>
    foundEmpty_step (control_of_reachable hr)

/-- Someone takes care of what is in the queue: a worker that is up, or a
submission that is about to signal. -/
def Attended (s : State n m) : Prop :=
  s.destroyed = false → s.pending ≠ [] →
    (∃ w, s.worker w ≠ .waiting) ∨ ∃ τ t, s.call τ = .submitSignal t

/-- Every step keeps the queue attended. -/
theorem attended_step (hn : 0 < n) {s s' : State n m} {l} (hc : Control s) (he : FoundEmpty s)
    (hs : Attended s) (h : Step s l s') : Attended s' := by
  intro hd hp
  -- A worker that takes a step is up after it, unless it goes to sleep.
  have hup : ∀ {w pc}, pc ≠ .waiting → ∃ v, update s.worker w pc v ≠ .waiting :=
    fun {w} _ hpc => ⟨w, by simpa using hpc⟩
  -- A call step that is not the signal leaves the signals to come.
  have hcalls : ∀ {τ pc}, s.destroyed = false → s.pending ≠ [] →
      (∀ t, s.call τ ≠ .submitSignal t) →
      (∃ w, s.worker w ≠ .waiting) ∨ ∃ υ t, update s.call τ pc υ = .submitSignal t := by
    intro τ pc hd hp hτ
    refine (hs hd hp).imp_right ?_
    rintro ⟨υ, t, hυ⟩
    have hne : υ ≠ τ := fun hυτ => hτ t (hυτ ▸ hυ)
    exact ⟨υ, t, by rw [Function.update_of_ne hne, hυ]⟩
  have hdestroyed : ∀ {pc}, s.destroyer = pc → pc ≠ .idle → s.destroyed = true :=
    fun hb hpc => hc.destroyed_iff.2 (hb ▸ hpc)
  have hmay : ∀ {τ}, s.MayCall τ → ∀ t, s.call τ ≠ .submitSignal t := fun hmay t ht => by
    simp [ht, State.MayCall, CallPc.inProgress] at hmay
  cases h
  case condWait w hw => exact absurd (he w (by rw [hw]; rfl)) hp
  case submitPush τ _ _ _ _ _ => exact .inr ⟨τ, s.submitted, by simp⟩
  case submitSignal w _ _ => exact .inl (hup (w := w) (by simp))
  case submitSignalLost hw => exact .inl ⟨⟨0, hn⟩, hw _⟩
  case submitRefused τ hm _ => exact hcalls hd hp (hmay hm)
  case submitAccepted τ _ hm _ => exact hcalls hd hp (hmay hm)
  case queryRefused τ _ _ hm _ => exact hcalls hd hp (hmay hm)
  case queryAccepted τ _ _ hm _ _ => exact hcalls hd hp (hmay hm)
  case activeHit hcall _ => exact hcalls hd hp (by simp [hcall])
  case activeMiss hcall _ => exact hcalls hd hp (by simp [hcall])
  case pendingHit hcall _ _ => exact hcalls hd hp (by simp [hcall])
  case pendingMiss hcall _ _ => exact hcalls hd hp (by simp [hcall])
  case destroySet => cases hd
  case destroyBroadcastActive hb => exact absurd (hdestroyed hb (by simp)) (by simpa using hd)
  case destroyBroadcastPending hb => exact absurd (hdestroyed hb (by simp)) (by simpa using hd)
  case destroyJoin hb _ => exact absurd (hdestroyed hb (by simp)) (by simpa using hd)
  all_goals exact .inl (hup (by simp))

/-- In every reachable state the queue is attended. -/
theorem attended_of_reachable (hn : 0 < n) {s : State n m} (hs : (system n m).Reachable s) :
    Attended s :=
  hs.invariant (fun s h _ hp => by subst h; exact absurd rfl hp) fun _ _ _ hr ha =>
    attended_step hn (control_of_reachable hr) (foundEmpty_of_reachable hr) ha

/-- **No stranded work**: while the executor is not destroyed, tasks wait in
the pending queue and no submission is between its append and its signal, at
least one worker is not blocked in its wait on `pending.cond`. -/
theorem pending_attended (hn : 0 < n) {s : State n m} (hs : (system n m).Reachable s)
    (hd : s.destroyed = false) (hp : s.pending ≠ []) (hsignal : ∀ τ t, s.call τ ≠ .submitSignal t) :
    ∃ w, s.worker w ≠ .waiting :=
  (attended_of_reachable hn hs hd hp).resolve_right fun ⟨τ, t, hτ⟩ => hsignal τ t hτ

/-- Two tasks are submitted to a sleeping worker by two threads, and the second
signal is lost because the first one woke it. -/
theorem pending_attended_twoTasks : ∃ s : State 1 2, (system 1 2).Reachable s ∧
    s.pending = [0, 1] ∧ s.call (.outside 1) = .returned (.submit (some 1)) ∧
      ∃ w, s.worker w ≠ .waiting := by
  have h : (system 1 2).Reachable (executorCreate 1 2) := .init rfl
  have h := reachable_step (.worker 0) h (.pollLock rfl rfl)
  have h := reachable_step (.worker 0) h (.pollEmpty rfl rfl)
  have h := reachable_step (.worker 0) h (.pollAlive rfl rfl)
  have h := reachable_step (.worker 0) h (.condWait rfl)
  have h := reachable_step (.call (.outside 0)) h (.submitAccepted true ⟨rfl, rfl⟩ rfl)
  have h := reachable_step (.call (.outside 1)) h (.submitAccepted true ⟨rfl, rfl⟩ rfl)
  have h := reachable_step (.call (.outside 0)) h
    (.submitPush 16 rfl (by rintro w ⟨⟩) (by rintro t ⟨⟩))
  have h := reachable_step (.call (.outside 1)) h
    (.submitPush 32 rfl (by rintro w ⟨⟩) (by rintro _ (_ | ⟨⟨⟩⟩) -; decide))
  have h := reachable_step (.call (.outside 0)) h (.submitSignal 0 rfl rfl)
  have h := reachable_step (.call (.outside 1)) h (.submitSignalLost rfl (by decide))
  refine ⟨_, h, rfl, rfl, pending_attended (numThreads_pos 1 Nat.one_pos) h rfl nofun ?_⟩
  rintro (w | c) t
  · exact nofun
  · match c with
    | 0 => exact nofun
    | 1 => exact nofun

end CommonsC.Executor
