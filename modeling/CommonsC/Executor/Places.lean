import CommonsC.Executor.Visibility
import Mathlib.Data.List.Perm.Subperm

/-!
# CommonsC.Executor.Places

Where the executor keeps its tasks: in the pending queue, in the active queue,
or on the way from the one to the other or out of it, on the hands of one
worker.  `Places` says that these places exclude each other, and that a queue
holds no task twice; `active_length_le` that there are no more active tasks
than workers.
-/

namespace CommonsC.Executor

open Function (update)

variable {n m : Nat}

/-! ## Kinds of program counters -/

/-- The task in transit: polled and not appended to the active queue, or
removed from it and not destroyed. -/
def WorkerPc.transit? : WorkerPc → Option TaskId
  | .polled t | .pushActive t | .destroyTask t | .finalizeLast t | .finalizerLast t
  | .destroyLast t => some t
  | _ => none

/-- The task of the worker's round in the loop of `thread_worker`. -/
def WorkerPc.loop? (pc : WorkerPc) : Option TaskId := pc.transit?.or pc.active?

@[simp] theorem WorkerPc.loop?_wake (pc : WorkerPc) : pc.wake.loop? = pc.loop? := by
  cases pc <;> rfl

theorem WorkerPc.task?_of_loop? {pc : WorkerPc} {t : TaskId} (h : pc.loop? = some t) :
    pc.task? = some t := by
  cases pc <;> simp_all [loop?, transit?, active?, task?]

theorem WorkerPc.loop?_of_transit? {pc : WorkerPc} {t : TaskId} (h : pc.transit? = some t) :
    pc.loop? = some t := by
  simp [loop?, h]

theorem WorkerPc.loop?_of_active? {pc : WorkerPc} {t : TaskId} (h : pc.active? = some t) :
    pc.loop? = some t := by
  cases pc <;> simp_all [loop?, transit?, active?]

theorem WorkerPc.active?_of_transit? {pc : WorkerPc} {t : TaskId} (h : pc.transit? = some t) :
    pc.active? = none := by
  cases pc <;> simp_all [transit?, active?]

/-! ## The places of the tasks -/

/-- No task is in two places. -/
structure Places (s : State n m) : Prop where
  pendingNodup : s.pending.Nodup
  pendingKnown : ∀ t ∈ s.pending, t < s.submitted
  activeNodup : s.active.Nodup
  activeHeld : ∀ t ∈ s.active, ∃ w, (s.worker w).active? = some t
  loop : ∀ w t, (s.worker w).loop? = some t → t ∉ s.pending
  rest : ∀ w ts, (s.worker w).clearRest? = some ts → ts ⊆ s.pending

/-- What a worker has on its hands was submitted. -/
theorem Refines.lt_submitted {s : State n m} {a : TaskId → Life n} (ha : Refines s a) {w : Fin n}
    {t : TaskId} (hw : (s.worker w).task? = some t) : t < s.submitted := by
  obtain ⟨_, _, hlife⟩ := (ha.workers w).life hw
  exact Nat.lt_of_not_le fun hle => by simp [(ha.queue.absent t).2 hle] at hlife

/-- Only the worker at work on `pending.lock` changes the pending queue. -/
theorem pending_step {s s' : State n m} {l} (h : Step s l s') :
    s'.pending = s.pending ∨ (∃ w t, l = .worker w ∧ s.worker w = .pollHead ∧
        s.pending = t :: s'.pending ∧ s'.worker = update s.worker w (.polled t)) ∨
      (∃ w, l = .worker w ∧ s.worker w = .clearing [] ∧ s'.pending = [] ∧
        s'.worker = update s.worker w .done) ∨
      ∃ τ finalize, l = .call τ ∧ s.call τ = .submitPush finalize ∧ s.CanLock τ ∧
        s'.pending = s.pending ++ [s.submitted] ∧ s'.submitted = s.submitted + 1 ∧
        s'.worker = s.worker := by
  cases h
  case pollTake w t ts hw hp => exact .inr (.inl ⟨w, t, rfl, hw, hp, rfl⟩)
  case clearDone w hw => exact .inr (.inr (.inl ⟨w, rfl, hw, rfl, rfl⟩))
  case submitPush τ f addr hcall hl _ =>
    exact .inr (.inr (.inr ⟨τ, f, rfl, hcall, hl, rfl, rfl, rfl⟩))
  all_goals exact .inl rfl

/-- A task comes into the loop of a worker from the pending queue only. -/
theorem loop_step {s s' : State n m} {l} (h : Step s l s') {w : Fin n} {t : TaskId}
    (ht : (s'.worker w).loop? = some t) :
    (s.worker w).loop? = some t ∨ s.worker w = .pollHead ∧ s.pending = t :: s'.pending := by
  have hset : ∀ {v pc}, (pc.loop? = none ∨ pc.loop? = (s.worker v).loop?) →
      (update s.worker v pc w).loop? = some t → (s.worker w).loop? = some t := by
    intro v pc hpc
    refine (Function.forall_update_iff _ fun w (pc : WorkerPc) =>
      pc.loop? = some t → (s.worker w).loop? = some t).2 ⟨fun ht => ?_, fun _ _ ht => ht⟩ w
    rcases hpc with hpc | hpc
    · rw [hpc] at ht; cases ht
    · rw [← hpc, ht]
  cases h
  case pollTake v u ts hv hp =>
    by_cases hw : w = v
    · subst hw
      have htu : WorkerPc.loop? (.polled u) = some t := by simpa using ht
      cases htu
      exact .inr ⟨hv, hp⟩
    · exact .inl (by simpa [Function.update_of_ne hw] using ht)
  case destroyBroadcastPending => exact .inl (by simpa using ht)
  all_goals first
    | exact .inl ht
    | exact .inl (hset (.inl rfl) ht)
    | exact .inl (hset (.inr (by rw [‹s.worker _ = _›]; rfl)) ht)

/-- A `queue_clear` goes through the pending queue as it was when it began. -/
theorem clearRest_step {s s' : State n m} {l} (h : Step s l s') {w : Fin n} {ts : List TaskId}
    (hts : (s'.worker w).clearRest? = some ts) :
    ts = s'.pending ∨ ∃ us, (s.worker w).clearRest? = some us ∧ ts ⊆ us := by
  have hset : ∀ {v pc}, (∀ ts, pc.clearRest? = some ts → ts = s'.pending ∨
        ∃ us, (s.worker v).clearRest? = some us ∧ ts ⊆ us) →
      (update s.worker v pc w).clearRest? = some ts →
      ts = s'.pending ∨ ∃ us, (s.worker w).clearRest? = some us ∧ ts ⊆ us := by
    intro v pc hpc
    exact (Function.forall_update_iff _ fun w (pc : WorkerPc) => pc.clearRest? = some ts →
      ts = s'.pending ∨ ∃ us, (s.worker w).clearRest? = some us ∧ ts ⊆ us).2
        ⟨hpc ts, fun _ _ hts => .inr ⟨ts, hts, List.Subset.refl ts⟩⟩ w
  have hkeep : ∀ {v pc}, pc.clearRest? = (s.worker v).clearRest? →
      (update s.worker v pc w).clearRest? = some ts →
      ts = s'.pending ∨ ∃ us, (s.worker w).clearRest? = some us ∧ ts ⊆ us :=
    fun hpc => hset fun ts h => .inr ⟨ts, by rw [← hpc, h], List.Subset.refl ts⟩
  cases h
  case clearLock v hv _ => exact hset (fun ts h => by cases h; exact .inl rfl) hts
  case clearTake v t us hv =>
    refine hset (fun ts h => .inr ⟨t :: us, by rw [hv]; rfl, ?_⟩) hts
    obtain rfl : us = ts := by cases h; rfl
    exact List.subset_cons_self t us
  case clearDone => exact hset (by intro ts h; cases h) hts
  case destroyBroadcastPending =>
    exact .inr ⟨ts, by simpa using hts, List.Subset.refl ts⟩
  all_goals first
    | exact .inr ⟨ts, hts, List.Subset.refl ts⟩
    | exact hkeep (by rw [‹s.worker _ = _›]; rfl) hts

/-- Only the worker of a task appends it to the active queue or removes it. -/
theorem active_step {s s' : State n m} {l} (h : Step s l s') :
    s'.active = s.active ∧ (∀ w, (s'.worker w).active? = (s.worker w).active?) ∨
      (∃ w t, s.worker w = .pushActive t ∧ s'.active = s.active ++ [t] ∧
        s'.worker = update s.worker w (.readCancelled t)) ∨
      ∃ w t, s.worker w = .removeActive t ∧ s'.active = s.active.erase t ∧
        s'.worker = update s.worker w (.destroyTask t) := by
  have hset : ∀ {v pc}, pc.active? = (s.worker v).active? →
      ∀ w, (update s.worker v pc w).active? = (s.worker w).active? := fun hpc =>
    (Function.forall_update_iff _ fun w (pc : WorkerPc) => pc.active? = (s.worker w).active?).2
      ⟨hpc, fun _ _ => rfl⟩
  cases h
  case pushActive w t hw => exact .inr (.inl ⟨w, t, hw, rfl, rfl⟩)
  case removeActive w t hw => exact .inr (.inr ⟨w, t, hw, rfl, rfl⟩)
  case destroyBroadcastPending =>
    exact .inl ⟨rfl, fun w => WorkerPc.active?_wake _⟩
  all_goals first
    | exact .inl ⟨rfl, fun _ => rfl⟩
    | exact .inl ⟨rfl, hset (by rw [‹s.worker _ = _›]; rfl)⟩

/-- A step appends new tasks to the pending queue only. -/
theorem Places.pending_step {s s' : State n m} {l} (hs : Places s) (h : Step s l s') :
    s'.pending.Nodup ∧ ∀ t ∈ s'.pending, t < s'.submitted := by
  rcases Executor.pending_step h with heq | ⟨w, t, -, -, hp, -⟩ | ⟨w, -, -, hp, -⟩ |
    ⟨τ, f, -, -, -, hp, hk, -⟩
  · rw [heq]
    exact ⟨hs.pendingNodup, fun t ht =>
      Nat.lt_of_lt_of_le (hs.pendingKnown t ht) (submitted_le_step h)⟩
  · have hnodup := hs.pendingNodup
    rw [hp] at hnodup
    refine ⟨(List.nodup_cons.1 hnodup).2, fun u hu => ?_⟩
    exact Nat.lt_of_lt_of_le (hs.pendingKnown u (by rw [hp]; exact List.mem_cons_of_mem t hu))
      (submitted_le_step h)
  · rw [hp]
    exact ⟨List.nodup_nil, nofun⟩
  · rw [hp, hk]
    refine ⟨List.nodup_append.2 ⟨hs.pendingNodup, by simp, fun u hu v hv huv => ?_⟩, ?_⟩
    · have := hs.pendingKnown u hu
      rw [huv, List.mem_singleton.1 hv] at this
      exact Nat.lt_irrefl _ this
    · intro u hu
      rcases List.mem_append.1 hu with hu | hu
      · exact Nat.lt_succ_of_lt (hs.pendingKnown u hu)
      · rw [List.mem_singleton.1 hu]
        exact Nat.lt_succ_self _

/-- The active queue stays that of the workers' tasks. -/
theorem Places.active_step {s s' : State n m} {l} {a : TaskId → Life n} (hs : Places s)
    (ha : Refines s a) (h : Step s l s') :
    s'.active.Nodup ∧ ∀ t ∈ s'.active, ∃ w, (s'.worker w).active? = some t := by
  rcases Executor.active_step h with ⟨heq, hsame⟩ | ⟨w, t, hw, heq, hw'⟩ | ⟨w, t, hw, heq, hw'⟩
  · rw [heq]
    exact ⟨hs.activeNodup, fun t ht => (hs.activeHeld t ht).imp fun w hw => by rw [hsame, hw]⟩
  · have hnew : t ∉ s.active := fun ht => by
      obtain ⟨v, hv⟩ := hs.activeHeld t ht
      obtain rfl := ha.worker_unique (WorkerPc.task?_of_active? hv)
        (show (s.worker w).task? = some t by rw [hw]; rfl)
      rw [hw] at hv
      cases hv
    rw [heq, hw']
    refine ⟨List.nodup_append.2 ⟨hs.activeNodup, by simp, fun u hu v hv huv => ?_⟩, ?_⟩
    · rw [huv, List.mem_singleton.1 hv] at hu
      exact hnew hu
    · intro u hu
      rcases List.mem_append.1 hu with hu | hu
      · obtain ⟨v, hv⟩ := hs.activeHeld u hu
        have hne : v ≠ w := fun hvw => by rw [hvw, hw] at hv; cases hv
        exact ⟨v, by rw [Function.update_of_ne hne, hv]⟩
      · rw [List.mem_singleton.1 hu]
        exact ⟨w, by rw [Function.update_self]; rfl⟩
  · rw [heq, hw']
    refine ⟨hs.activeNodup.erase t, fun u hu => ?_⟩
    obtain ⟨hut, hu⟩ := (hs.activeNodup.mem_erase_iff).1 hu
    obtain ⟨v, hv⟩ := hs.activeHeld u hu
    have hne : v ≠ w := fun hvw => by
      rw [hvw, hw] at hv
      exact hut (Option.some.inj hv).symm
    exact ⟨v, by rw [Function.update_of_ne hne, hv]⟩

/-- A task in the loop of a worker does not get back into the pending queue. -/
theorem Places.loop_step {s s' : State n m} {l} {a : TaskId → Life n} (hs : Places s)
    (ha : Refines s a) (h : Step s l s') {w : Fin n} {t : TaskId}
    (ht : (s'.worker w).loop? = some t) : t ∉ s'.pending := by
  intro hmem
  rcases Executor.loop_step h ht with ht | ⟨-, hp⟩
  · have hold := hs.loop w t ht
    rcases Executor.pending_step h with heq | ⟨v, u, -, -, hp, -⟩ | ⟨v, -, -, hp, -⟩ |
      ⟨τ, f, -, -, -, hp, -, -⟩
    · exact hold (heq ▸ hmem)
    · exact hold (by rw [hp]; exact List.mem_cons_of_mem u hmem)
    · rw [hp] at hmem
      cases hmem
    · rw [hp, List.mem_append, List.mem_singleton] at hmem
      have hlt := ha.lt_submitted (WorkerPc.task?_of_loop? ht)
      exact hmem.elim hold fun htk => Nat.lt_irrefl _ (htk ▸ hlt)
  · have hnodup := hs.pendingNodup
    rw [hp] at hnodup
    exact (List.nodup_cons.1 hnodup).1 hmem

/-- While a worker clears the pending queue, no other one takes tasks from it. -/
theorem Places.rest_step {s s' : State n m} {l} (hs : Places s) (hc : Control s) (h : Step s l s')
    {w : Fin n} {ts : List TaskId} (hts : (s'.worker w).clearRest? = some ts) :
    ts ⊆ s'.pending := by
  rcases clearRest_step h hts with rfl | ⟨us, hus, hsub⟩
  · exact List.Subset.refl _
  · refine List.Subset.trans hsub (List.Subset.trans (hs.rest w us hus) ?_)
    have hholds := (WorkerPc.of_clearRest? hus).1
    rcases Executor.pending_step h with heq | ⟨v, u, -, hv, -, -⟩ | ⟨v, -, hv, -, hv'⟩ |
      ⟨τ, f, -, -, -, hp, -, -⟩
    · rw [heq]; exact List.Subset.refl _
    · obtain rfl := hc.holds_unique (by rw [hv]; rfl) hholds
      rw [hv] at hus
      cases hus
    · obtain rfl := hc.holds_unique (by rw [hv]; rfl) hholds
      rw [hv', Function.update_self] at hts
      cases hts
    · rw [hp]; exact List.subset_append_left _ _

/-- Every step keeps the tasks in place. -/
theorem places_step {s s' : State n m} {l} {a : TaskId → Life n} (hc : Control s)
    (ha : Refines s a) (hs : Places s) (h : Step s l s') : Places s' where
  pendingNodup := (hs.pending_step h).1
  pendingKnown := (hs.pending_step h).2
  activeNodup := (hs.active_step ha h).1
  activeHeld := (hs.active_step ha h).2
  loop _ _ := hs.loop_step ha h
  rest _ _ := hs.rest_step hc h

/-- In every reachable state the tasks are in place. -/
theorem places_of_reachable {s : State n m} (hs : (system n m).Reachable s) : Places s := by
  refine hs.invariant ?_ fun s l s' hr hp h => ?_
  · rintro s rfl
    exact ⟨List.nodup_nil, nofun, List.nodup_nil, nofun, nofun, nofun⟩
  · obtain ⟨a, ha⟩ := exists_refines hr
    exact places_step (control_of_reachable hr) ha hp h

/-- In every reachable state the active queue is filled. -/
theorem inActive_of_reachable {s : State n m} (hs : (system n m).Reachable s) : InActive s := by
  refine hs.invariant ?_ fun s l s' hr hin h => ?_
  · rintro s rfl
    exact nofun
  · obtain ⟨a, ha⟩ := exists_refines hr
    exact inActive_step ha hin h

/-! ## What follows -/

/-- The places of the tasks exclude each other. -/
theorem places_disjoint {s : State n m} (hs : (system n m).Reachable s) {t : TaskId} :
    (t ∈ s.pending → t ∉ s.active ∧ ∀ w, (s.worker w).transit? ≠ some t) ∧
      (t ∈ s.active → ∀ w, (s.worker w).transit? ≠ some t) ∧
      ∀ v w, (s.worker v).transit? = some t → (s.worker w).transit? = some t → v = w := by
  have hp := places_of_reachable hs
  obtain ⟨a, ha⟩ := exists_refines hs
  have htask : ∀ {w}, (s.worker w).transit? = some t → (s.worker w).task? = some t := fun h =>
    WorkerPc.task?_of_loop? (WorkerPc.loop?_of_transit? h)
  refine ⟨fun ht => ⟨fun hactive => ?_, fun w hw => ?_⟩, fun hactive w hw => ?_,
    fun v w hv hw => ?_⟩
  · obtain ⟨w, hw⟩ := hp.activeHeld t hactive
    exact hp.loop w t (WorkerPc.loop?_of_active? hw) ht
  · exact hp.loop w t (WorkerPc.loop?_of_transit? hw) ht
  · obtain ⟨v, hv⟩ := hp.activeHeld t hactive
    obtain rfl := ha.worker_unique (WorkerPc.task?_of_active? hv) (htask hw)
    rw [WorkerPc.active?_of_transit? hw] at hv
    cases hv
  · exact ha.worker_unique (htask hv) (htask hw)

/-- There are no more active tasks than workers. -/
theorem active_length_le {s : State n m} (hs : (system n m).Reachable s) :
    s.active.length ≤ n := by
  have hp := places_of_reachable hs
  have hsub : s.active ⊆ (List.finRange n).filterMap fun w => (s.worker w).active? :=
    fun t ht => by
      obtain ⟨w, hw⟩ := hp.activeHeld t ht
      exact List.mem_filterMap.2 ⟨w, List.mem_finRange w, hw⟩
  calc s.active.length
      ≤ ((List.finRange n).filterMap fun w => (s.worker w).active?).length :=
        (List.Nodup.subperm hp.activeNodup hsub).length_le
    _ ≤ (List.finRange n).length := List.length_filterMap_le _ _
    _ = n := List.length_finRange

end CommonsC.Executor
