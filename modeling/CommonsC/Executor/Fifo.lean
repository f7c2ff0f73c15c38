import CommonsC.Executor.Linked

/-!
# CommonsC.Executor.Fifo

What the queues in memory do, over whole runs:

* `linked_fifo` — `queue_poll` takes the tasks in the order of their
  submission, a task is in one place at a time, and there are at most as many
  active tasks as workers;
* `executorActiveTasksCount_eq` — `executor_active_tasks_count` counts them;
* `queues_return` — no traversal of a queue runs on for ever.
-/

namespace CommonsC.Executor

open LinkedList (Linked)

variable {n m : Nat}

/-! ## The places of the tasks -/

@[simp] theorem WorkerPc.transit?_forget (pc : WorkerPc) : pc.forget.transit? = pc.transit? := by
  cases pc <;> rfl

/-- The worker has the task in transit. -/
def LinkedState.InTransit (s : LinkedState n m) (w : Fin n) (t : TaskId) : Prop :=
  (s.core.worker w).transit? = some t

/-- A task is in one of the two lists, once, or in transit on one worker, or in
none of these places. -/
structure LinkedState.Apart (s : LinkedState n m) (pending active : List TaskId) : Prop where
  pendingNodup : pending.Nodup
  activeNodup : active.Nodup
  disjoint : pending.Disjoint active
  transit : ∀ w t, s.InTransit w t → t ∉ pending ∧ t ∉ active
  single : ∀ v w t, s.InTransit v t → s.InTransit w t → v = w

/-- What is in transit is so in the executor with lists. -/
theorem Represents.inTransit {s : LinkedState n m} {a : State n m} (hs : Represents s a)
    {w : Fin n} {t : TaskId} (h : s.InTransit w t) : (a.worker w).transit? = some t := by
  rw [LinkedState.InTransit, hs.core] at h
  exact (WorkerPc.transit?_forget _).symm.trans h

/-- The lists that the memory represents are apart. -/
theorem Represents.apart {s : LinkedState n m} {a : State n m} (hs : Represents s a) :
    s.Apart a.pending a.active := by
  have hd := fun t => places_disjoint hs.reachable (t := t)
  exact
    { pendingNodup := hs.pending.forward.nodup
      activeNodup := hs.active.forward.nodup
      disjoint := fun t hp => ((hd t).1 hp).1
      transit := fun w t hw =>
        ⟨fun hp => ((hd t).1 hp).2 w (hs.inTransit hw),
          fun ha => (hd t).2.1 ha w (hs.inTransit hw)⟩
      single := fun v w t hv hw => (hd t).2.2 v w (hs.inTransit hv) (hs.inTransit hw) }

/-! ## First in, first out -/

/-- **First in, first out**: in every reachable state the tasks that
`queue_poll` took are in the order in which `executor_submit` appended them,
none of them left out before the first `queue_clear`; the links of the two
heads are those of lists; a task is in one of these or in transit on one
worker; and no more tasks are active than there are workers. -/
theorem linked_fifo {s : LinkedState n m} (hs : (linked n m).Reachable s) :
    s.taken.Sublist s.appended ∧ (s.cleared = false → s.taken <+: s.appended) ∧
      ∃ pending active, Linked s.links s.pendingHead pending ∧
        Linked s.links s.activeHead active ∧ s.Apart pending active ∧ active.length ≤ n := by
  obtain ⟨a, -, ha⟩ := (linked_simulates n m).reachable hs
  have horder : s.taken.Sublist s.appended := (List.sublist_append_left _ _).trans ha.order
  have hprefix : s.cleared = false → s.taken <+: s.appended := fun hc =>
    ⟨a.pending, ha.untilCleared hc⟩
  exact ⟨horder, hprefix, a.pending, a.active, ha.pending, ha.active, ha.apart,
    active_length_le ha.reachable⟩

/-- One more step of a run, under a given label. -/
theorem linked_step {s s' : LinkedState n m} (l : Label n m) (hs : (linked n m).Reachable s)
    (h : LinkedStep s l s') : (linked n m).Reachable s' := hs.step h

/-- Two tasks are submitted, and the worker takes the first one to the active
queue. -/
theorem linked_fifo_twoTasks : ∃ s : LinkedState 1 1, s.taken = [0] ∧ s.appended = [0, 1] ∧
    s.taken <+: s.appended ∧ ∃ pending active, Linked s.links s.pendingHead pending ∧
      Linked s.links s.activeHead active ∧ s.Apart pending active ∧ active.length ≤ 1 := by
  have h : (linked 1 1).Reachable (linkedCreate 1 1) := .init rfl
  have h := linked_step (.call (.outside 0)) h
    (.other rfl nofun (.submitAccepted true ⟨rfl, rfl⟩ rfl))
  have h := linked_step (.call (.outside 0)) h
    (.submitPush 0 16 rfl (by rintro w ⟨⟩) (by rintro t ⟨⟩) rfl)
  have h := linked_step (.call (.outside 0)) h
    (.other rfl nofun (.submitSignalLost rfl (by decide)))
  have h := linked_step (.call (.outside 0)) h
    (.other rfl nofun (.submitAccepted true ⟨rfl, rfl⟩ rfl))
  have h := linked_step (.call (.outside 0)) h
    (.submitPush 1 32 rfl (by rintro w ⟨⟩) (by rintro _ (_ | ⟨⟨⟩⟩) -; decide) rfl)
  have h := linked_step (.worker 0) h (.other rfl (fun _ _ => rfl) (.pollLock rfl rfl))
  have h := linked_step (.worker 0) h (.pollTake rfl rfl)
  have h := linked_step (.worker 0) h (.resetPrev (t := 0) rfl rfl)
  have h := linked_step (.worker 0) h (.resetNext (t := 0) rfl rfl)
  have h := linked_step (.worker 0) h (.other rfl (by rintro w ⟨⟩; rfl) (.checkAlive rfl rfl))
  have h := linked_step (.worker 0) h (.pushActive 0 rfl rfl)
  obtain ⟨-, hprefix, hlists⟩ := linked_fifo h
  exact ⟨_, rfl, rfl, hprefix rfl, hlists⟩

/-! ## Traversals -/

/-- `executor_active_tasks_count`. -/
def executorActiveTasksCount (s : LinkedState n m) (fuel : Nat) : Option Nat :=
  if s.core.destroyed then some 0 else s.links.len fuel s.activeHead

/-- `executor_active_tasks_count` returns the number of the active tasks. -/
theorem executorActiveTasksCount_eq {s : LinkedState n m} (hs : (linked n m).Reachable s)
    (hd : s.core.destroyed = false) {fuel : Nat} (hfuel : n ≤ fuel) :
    ∃ active, Linked s.links s.activeHead active ∧ active.length ≤ n ∧
      executorActiveTasksCount s fuel = some active.length := by
  obtain ⟨a, -, ha⟩ := (linked_simulates n m).reachable hs
  have hle := active_length_le ha.reachable
  refine ⟨a.active, ha.active, hle, ?_⟩
  rw [executorActiveTasksCount, hd, LinkedList.len_eq ha.active.forward,
    if_pos (Nat.le_trans hle hfuel)]
  rfl

/-- Every traversal of a queue comes to an end. -/
theorem queues_return {s : LinkedState n m} (hs : (linked n m).Reachable s) {fuel : Nat}
    (hfuel : n + s.appended.length ≤ fuel) (fn : TaskId → Bool) (t : TaskId) :
    (∃ r, s.links.findBy fn fuel s.activeHead = some r) ∧
      (∃ r, s.links.findBy fn fuel s.pendingHead = some r) ∧
      (∃ r, s.links.append fuel s.activeHead t = some r) ∧
      ∃ r, (newNode s.links s.core.submitted).append fuel s.pendingHead s.core.submitted =
        some r := by
  obtain ⟨a, -, ha⟩ := (linked_simulates n m).reachable hs
  have hactive : a.active.length ≤ fuel := by
    have := active_length_le ha.reachable
    omega
  have hpending : a.pending.length ≤ fuel := by
    have hle := ((List.sublist_append_right _ _).trans ha.order).length_le
    omega
  have hlinked := ha.pending.sameOff (newNode_sameOff s.links s.core.submitted) fun u hu h =>
    ha.new.1 (h ▸ hu)
  exact ⟨LinkedList.findBy_returns ha.active.forward fn hactive,
    LinkedList.findBy_returns ha.pending.forward fn hpending,
    LinkedList.append_returns ha.active t hactive, LinkedList.append_returns hlinked _ hpending⟩

end CommonsC.Executor
