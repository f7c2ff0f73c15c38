import CommonsC.Base.Liveness
import CommonsC.Executor.Finalization
import CommonsC.Executor.Places
import CommonsC.Executor.Wakeup

/-!
# CommonsC.Executor.Progress

What has to happen to a submitted task.

In a fair run every worker goes on where it can, callbacks return, and calls
that began are carried on.  `WorkerPc.Next` is what one step of a worker does to
its program counter, so that the ranks of this development need only look at
the counters.  A task that a worker has is released (`released_of_held`), the
head of the pending queue is taken (`exists_taken`), and with it every task
(`exists_finished`).
-/

namespace CommonsC.Executor

open TransitionSystem

variable {n m : Nat}

/-! ## Fair runs -/

/-- The worker is in a callback, which may be none. -/
def WorkerPc.inCallback : WorkerPc → Bool
  | .action _ | .finalizer _ | .finalizerLast _ | .clearFinalizer _ _ => true
  | _ => false

/-- The threads go on where they can, and callbacks return.  No thread need
begin a call. -/
structure FairRun {s₀ : State n m} (ρ : (system n m).Run s₀) : Prop where
  worker : ∀ w, ρ.Fair ((system n m).Enabled (· = .worker w)) (· = .worker w)
  callback : ∀ w, ρ.Fair (fun s => (s.worker w).inCallback = true) (· = .callback w)
  call : ∀ τ, ρ.Fair
    (fun s => (s.call τ).inProgress = true ∧ (system n m).Enabled (· = .call τ) s) (· = .call τ)
  destroy : ρ.Fair (fun s => s.destroyer ≠ .idle ∧ (system n m).Enabled (· = .destroy) s)
    (· = .destroy)

/-! ## The steps of a worker -/

/-- A step of the worker's own. -/
def Own (w : Fin n) (l : Label n m) : Prop := l = .worker w ∨ l = .callback w

/-- What a step of a worker's own does to its program counter. -/
inductive WorkerPc.Next (s : State n m) : WorkerPc → WorkerPc → Prop
  | pollLock : Next s .poll .pollHead
  | pollTake {t ts} : s.pending = t :: ts → Next s .pollHead (.polled t)
  | pollEmpty : s.pending = [] → Next s .pollHead .pollDestroyed
  | pollNull : s.destroyed = true → Next s .pollDestroyed .clear
  | pollAlive : s.destroyed = false → Next s .pollDestroyed .pollWait
  | condWait : Next s .pollWait .waiting
  | relock : Next s .woken .pollHead
  | checkAlive {t} : s.destroyed = false → Next s (.polled t) (.pushActive t)
  | checkDestroyed {t} : s.destroyed = true → Next s (.polled t) (.finalizeLast t)
  | pushActive {t} : Next s (.pushActive t) (.readCancelled t)
  | runAction {t} : Next s (.readCancelled t) (.action t)
  | skipAction {t} : Next s (.readCancelled t) (.recheck t ECANCELED)
  | actionReturn {t result} : Next s (.action t) (.recheck t result)
  | recheck {t result result'} : Next s (.recheck t result) (.finalize t result')
  | finalize {t result} : Next s (.finalize t result) (.finalizer t)
  | finalizerReturn {t} : Next s (.finalizer t) (.removeActive t)
  | removeActive {t} : Next s (.removeActive t) (.destroyTask t)
  | destroyTask {t} : Next s (.destroyTask t) .poll
  | finalizeLast {t} : Next s (.finalizeLast t) (.finalizerLast t)
  | finalizerLastReturn {t} : Next s (.finalizerLast t) (.destroyLast t)
  | destroyLast {t} : Next s (.destroyLast t) .clear
  | clearLock : Next s .clear (.clearing s.pending)
  | clearTake {t ts} : Next s (.clearing (t :: ts)) (.clearFinalize t ts)
  | clearFinalize {t ts} : Next s (.clearFinalize t ts) (.clearFinalizer t ts)
  | clearReturn {t ts} : Next s (.clearFinalizer t ts) (.clearDestroy t ts)
  | clearDestroy {t ts} : Next s (.clearDestroy t ts) (.clearing ts)
  | clearDone : Next s (.clearing []) .done

/-- A worker's own step. -/
theorem own_step {s s' : State n m} {l} {w : Fin n} (h : Step s l s') (hl : Own w l) :
    (s.worker w).Next s (s'.worker w) := by
  have hset : ∀ {pc pc'}, s.worker w = pc → pc.Next s pc' →
      (s.worker w).Next s (Function.update s.worker w pc' w) := by
    intro pc pc' hpc hnext
    rwa [Function.update_self, hpc]
  rcases hl with rfl | rfl
  · cases h
    case pollLock _ hw => exact hset hw .pollLock
    case pollTake hp hw => exact hset hw (.pollTake hp)
    case pollEmpty hp hw => exact hset hw (.pollEmpty hp)
    case pollNull hd hw => exact hset hw (.pollNull hd)
    case pollAlive hd hw => exact hset hw (.pollAlive hd)
    case condWait hw => exact hset hw .condWait
    case relock _ hw => exact hset hw .relock
    case checkAlive hd hw => exact hset hw (.checkAlive hd)
    case checkDestroyed hd hw => exact hset hw (.checkDestroyed hd)
    case pushActive hw => exact hset hw .pushActive
    case runAction _ hw => exact hset hw .runAction
    case skipAction _ hw => exact hset hw .skipAction
    case recheck hw => exact hset hw .recheck
    case finalize hw => exact hset hw .finalize
    case removeActive hw => exact hset hw .removeActive
    case destroyTask hw => exact hset hw .destroyTask
    case finalizeLast hw => exact hset hw .finalizeLast
    case destroyLast hw => exact hset hw .destroyLast
    case clearLock _ hw => exact hset hw .clearLock
    case clearTake hw => exact hset hw .clearTake
    case clearFinalize hw => exact hset hw .clearFinalize
    case clearDestroy hw => exact hset hw .clearDestroy
    case clearDone hw => exact hset hw .clearDone
  · cases h
    case actionReturn hw _ => exact hset hw .actionReturn
    case finalizerReturn hw _ => exact hset hw .finalizerReturn
    case finalizerLastReturn hw _ => exact hset hw .finalizerLastReturn
    case clearReturn hw _ => exact hset hw .clearReturn

/-- Another step leaves the worker where it is, unless it wakes it up. -/
theorem other_step {s s' : State n m} {l} {w : Fin n} (h : Step s l s') (hl : ¬Own w l) :
    s'.worker w = s.worker w ∨ s.worker w = .waiting ∧ s'.worker w = .woken := by
  have hne : ∀ {v pc}, ¬Own w (.worker v : Label n m) ∨ ¬Own w (.callback v : Label n m) →
      Function.update s.worker v pc w = s.worker w := by
    intro v pc hv
    refine Function.update_of_ne ?_ _ _
    rintro rfl
    rcases hv with hv | hv
    · exact hv (.inl rfl)
    · exact hv (.inr rfl)
  have hwake : ∀ {v}, s.worker v = .waiting → Function.update s.worker v .woken w = s.worker w ∨
      s.worker w = .waiting ∧ Function.update s.worker v .woken w = .woken := by
    intro v hv
    by_cases hwv : w = v
    · subst hwv
      exact .inr ⟨hv, Function.update_self ..⟩
    · exact .inl (Function.update_of_ne hwv _ _)
  cases h
  case spurious v hv => exact hwake hv
  case submitSignal v _ hv => exact hwake hv
  case destroyBroadcastPending =>
    change (s.worker w).wake = s.worker w ∨ s.worker w = .waiting ∧ (s.worker w).wake = .woken
    cases hw : s.worker w <;> first
      | exact .inl rfl
      | exact .inr ⟨rfl, rfl⟩
  all_goals first
    | exact .inl rfl
    | exact .inl (hne (.inl hl))
    | exact .inl (hne (.inr hl))

/-- The worker needs `pending.lock` for its next step. -/
def WorkerPc.needsLock : WorkerPc → Bool
  | .poll | .woken | .clear => true
  | _ => false

/-- A worker that neither waits nor is done can go on, if the lock is free where
it needs it. -/
theorem enabled_worker {s : State n m} {w : Fin n} (hwaiting : s.worker w ≠ .waiting)
    (hdone : s.worker w ≠ .done) (hcallback : (s.worker w).inCallback = false)
    (hlock : (s.worker w).needsLock = true → s.holder = none) :
    (system n m).Enabled (· = .worker w) s := by
  have hstep : ∀ {s'}, Step s (.worker w) s' → (system n m).Enabled (· = .worker w) s :=
    fun h => ⟨_, _, rfl, h⟩
  cases hw : s.worker w
  all_goals rw [hw] at hwaiting hdone hcallback hlock
  case poll => exact hstep (.pollLock hw (hlock rfl))
  case pollHead =>
    cases hp : s.pending with
    | nil => exact hstep (.pollEmpty hw hp)
    | cons t ts => exact hstep (.pollTake hw hp)
  case pollDestroyed =>
    cases hd : s.destroyed with
    | false => exact hstep (.pollAlive hw hd)
    | true => exact hstep (.pollNull hw hd)
  case pollWait => exact hstep (.condWait hw)
  case waiting => exact absurd rfl hwaiting
  case woken => exact hstep (.relock hw (hlock rfl))
  case polled t =>
    cases hd : s.destroyed with
    | false => exact hstep (.checkAlive hw hd)
    | true => exact hstep (.checkDestroyed hw hd)
  case pushActive t => exact hstep (.pushActive hw)
  case readCancelled t =>
    cases hc : (s.task t).cancelled with
    | false => exact hstep (.runAction hw hc)
    | true => exact hstep (.skipAction hw hc)
  case recheck t result => exact hstep (.recheck hw)
  case finalize t result => exact hstep (.finalize hw)
  case removeActive t => exact hstep (.removeActive hw)
  case destroyTask t => exact hstep (.destroyTask hw)
  case finalizeLast t => exact hstep (.finalizeLast hw)
  case destroyLast t => exact hstep (.destroyLast hw)
  case clear => exact hstep (.clearLock hw (hlock rfl))
  case clearing ts =>
    cases ts with
    | nil => exact hstep (.clearDone hw)
    | cons t ts => exact hstep (.clearTake hw)
  case clearFinalize t ts => exact hstep (.clearFinalize hw)
  case clearDestroy t ts => exact hstep (.clearDestroy hw)
  case done => exact absurd rfl hdone
  all_goals cases hcallback

/-! ## What a worker has is released -/

/-- The steps of a worker until it is rid of its task. -/
def WorkerPc.toGo : WorkerPc → Nat
  | .polled _ => 9
  | .pushActive _ => 8
  | .readCancelled _ => 7
  | .action _ => 6
  | .recheck _ _ => 5
  | .finalize _ _ => 4
  | .finalizer _ | .finalizeLast _ | .clearFinalize _ _ => 3
  | .removeActive _ | .finalizerLast _ | .clearFinalizer _ _ => 2
  | .destroyTask _ | .destroyLast _ | .clearDestroy _ _ => 1
  | _ => 0

/-- The worker keeps its task and gets ahead with it, or has no task after its
step, and is up. -/
theorem WorkerPc.Next.toGo_lt {s : State n m} {pc pc' : WorkerPc} (h : pc.Next s pc') {t : TaskId}
    (ht : pc.task? = some t) :
    (pc'.task? = some t ∧ pc'.toGo < pc.toGo) ∨
      ((pc'.task? = none ∧ pc' ≠ .waiting) ∧ pc.toGo = 1) := by
  cases h <;> first
    | (cases ht; done)
    | exact .inl ⟨ht, by simp [toGo]⟩
    | exact .inr ⟨⟨rfl, nofun⟩, rfl⟩

/-- The last step with a task releases it. -/
theorem released_of_toGo {s s' : State n m} {l} {w : Fin n} (h : Step s l s') (hl : Own w l)
    {t : TaskId} (ht : (s.worker w).task? = some t) (hone : (s.worker w).toGo = 1) :
    (s'.task t).freed = true := by
  have hfree : ∀ {u}, (s.worker w).task? = some u →
      (Function.update s.task u { s.task u with freed := true } t).freed = true := by
    intro u hu
    obtain rfl : t = u := Option.some.inj (ht.symm.trans hu)
    rw [Function.update_self]
  rcases hl with rfl | rfl
  · cases h
    case destroyTask hw => exact hfree (by rw [hw]; rfl)
    case destroyLast hw => exact hfree (by rw [hw]; rfl)
    case clearDestroy hw => exact hfree (by rw [hw]; rfl)
    all_goals
      rw [‹s.worker w = _›] at hone
      cases hone
  · cases h <;>
    · rw [‹s.worker w = _›] at hone
      cases hone

section

variable {s₀ : State n m} {ρ : (system n m).Run s₀}

/-- **A worker that can go on does**, from where it is. -/
theorem exists_own_step (hfair : FairRun ρ) {i : ℕ} {w : Fin n} {pc : WorkerPc}
    (hpc : (ρ.state i).worker w = pc) (hwaiting : pc ≠ .waiting) (hdone : pc ≠ .done)
    (hlock : pc.needsLock = true → ∀ j, i ≤ j → (ρ.state j).holder = none) :
    Eventually i fun j => ∃ l, Own w l ∧ (ρ.state j).worker w = pc ∧
      Step (ρ.state j) l (ρ.state (j + 1)) := by
  have hstays : ∀ j, i ≤ j → ∀ l, ¬Own w l → (ρ.state j).worker w = pc →
      Step (ρ.state j) l (ρ.state (j + 1)) → (ρ.state (j + 1)).worker w = pc := by
    intro j _ l hl hj h
    rcases other_step h hl with hsame | ⟨hw, -⟩
    · rwa [hsame]
    · exact absurd (hj.symm.trans hw) hwaiting
  have hgo : ∀ {C : State n m → Prop}, ρ.Fair C (Own w) →
      (∀ j, i ≤ j → (ρ.state j).worker w = pc → C (ρ.state j)) →
      Eventually i fun j => ∃ l, Own w l ∧ (ρ.state j).worker w = pc ∧
        Step (ρ.state j) l (ρ.state (j + 1)) := by
    intro C hfair howes
    have htakes := hfair.takes (P := fun s => s.worker w = pc) hpc howes hstays
    refine htakes.mono fun j _ ⟨hj, htakes⟩ => ?_
    obtain ⟨l, hl, hstep⟩ := htakes.step
    exact ⟨l, hl, hj, hstep⟩
  cases hcallback : pc.inCallback with
  | true =>
      refine hgo ((hfair.callback w).mono fun l hl => .inr hl) fun j _ hj => ?_
      rw [hj, hcallback]
  | false =>
      refine hgo ((hfair.worker w).mono fun l hl => .inl hl) fun j hij hj => ?_
      exact enabled_worker (hj ▸ hwaiting) (hj ▸ hdone) (hj ▸ hcallback)
        fun h => hlock (hj ▸ h) j hij

/-- **What a worker has is released**, and then the worker is up without a
task. -/
theorem released_of_held (hfair : FairRun ρ) {i : ℕ} {w : Fin n} {t : TaskId}
    (ht : ((ρ.state i).worker w).task? = some t) :
    Eventually i fun j => ((ρ.state j).task t).freed = true ∧
      ((ρ.state j).worker w).task? = none ∧ (ρ.state j).worker w ≠ .waiting := by
  refine eventually_of_rank (P := fun j => ((ρ.state j).worker w).task? = some t)
    (fun j => ((ρ.state j).worker w).toGo) ht fun j _ hj => ?_
  have hown := exists_own_step hfair rfl (fun hw => by rw [hw] at hj; cases hj)
    (fun hw => by rw [hw] at hj; cases hj)
    (fun hlock => by revert hj hlock; cases (ρ.state j).worker w <;> rintro ⟨⟩ ⟨⟩)
  refine hown.bind fun k hjk ⟨l, hl, hk, hstep⟩ => ⟨k + 1, Nat.le_succ k, ?_⟩
  have ht' : ((ρ.state k).worker w).task? = some t := by rw [hk, hj]
  rcases (own_step hstep hl).toGo_lt ht' with ⟨htask, hlt⟩ | ⟨hnone, hone⟩
  · exact .inr ⟨htask, hk ▸ hlt⟩
  · exact .inl ⟨released_of_toGo hstep hl ht' hone, hnone⟩

/-! ## The head of the queue is taken -/

omit ρ in
/-- Who neither looks at the queue nor leaves it does not hold its lock. -/
theorem WorkerPc.holds_eq_false {pc : WorkerPc} (hhead : pc ≠ .pollHead)
    (hfound : pc.foundEmpty = false) (hexit : pc.exiting = false) : pc.holds = false := by
  cases pc <;> simp_all [holds, foundEmpty, exiting]

omit ρ in
/-- Who has no task, does not look for one and does not leave is asleep. -/
theorem WorkerPc.eq_waiting {pc : WorkerPc} (htask : pc.task? = none) (hhead : pc ≠ .pollHead)
    (hfound : pc.foundEmpty = false) (hexit : pc.exiting = false)
    (hwants : pc ≠ .poll ∧ pc ≠ .woken) : pc = .waiting := by
  cases pc <;> simp_all [task?, foundEmpty, exiting]

variable (hfair : FairRun ρ) (hs₀ : (system n m).init s₀)
  (hlive : ∀ i, (ρ.state i).destroyed = false)

include hs₀ hlive in
/-- The head of the queue stays, until a worker takes it. -/
theorem head_step {j : ℕ} {t : TaskId} {ts : List TaskId} (hp : (ρ.state j).pending = t :: ts) :
    (∃ more, (ρ.state (j + 1)).pending = t :: (ts ++ more)) ∨
      (ρ.state (j + 1)).pending = ts ∧ ∃ w, (ρ.state (j + 1)).worker w = .polled t := by
  rcases ρ.next_cases j with ⟨-, hsame⟩ | ⟨l, -, hstep⟩
  · exact .inl ⟨[], by rw [hsame, hp, List.append_nil]⟩
  rcases pending_step hstep with hkeep | ⟨w, u, -, -, htake, hworker⟩ | ⟨w, -, hw, -⟩ |
      ⟨-, -, -, -, -, happend, -⟩
  · exact .inl ⟨[], by rw [hkeep, hp, List.append_nil]⟩
  · rw [hp, List.cons.injEq] at htake
    obtain ⟨rfl, hrest⟩ := htake
    exact .inr ⟨hrest.symm, w, by rw [hworker, Function.update_self]⟩
  · have hexit := (control_of_reachable (ρ.reachable hs₀ j)).exiting w (by rw [hw]; rfl)
    rw [hlive j] at hexit
    cases hexit
  · exact .inl ⟨[(ρ.state j).submitted], by rw [happend, hp, List.cons_append]⟩

omit ρ in
/-- A worker that finds a task takes it. -/
theorem taken_of_pollHead {s s' : State n m} {l} {w : Fin n} (h : Step s l s') (hl : Own w l)
    (hw : s.worker w = .pollHead) {t : TaskId} {ts : List TaskId} (hp : s.pending = t :: ts) :
    s'.pending = ts ∧ s'.worker w = .polled t := by
  rcases hl with rfl | rfl
  · cases h
    case pollTake hp' _ =>
      rw [hp] at hp'
      cases hp'
      exact ⟨rfl, Function.update_self ..⟩
    case pollEmpty hp' _ =>
      rw [hp] at hp'
      cases hp'
    all_goals simp_all
  · cases h <;> simp_all

include hfair hs₀ hlive in
/-- While nothing is taken from a queue that is not empty, all workers sleep. -/
theorem waiting_of_never_taken {i : ℕ} (hp : ∀ j, i ≤ j → (ρ.state j).pending ≠ [])
    (hnever : ∀ j, i ≤ j → ∀ w t ts, (ρ.state j).pending = t :: ts →
      ¬((ρ.state (j + 1)).pending = ts ∧ (ρ.state (j + 1)).worker w = .polled t))
    {j : ℕ} (hj : i ≤ j) (w : Fin n) : (ρ.state j).worker w = .waiting := by
  have hc := fun k => control_of_reachable (ρ.reachable hs₀ k)
  have hexit : ∀ k v, ((ρ.state k).worker v).exiting = false := by
    intro k v
    refine Bool.eq_false_iff.2 fun h => ?_
    have := (hc k).exiting v h
    rw [hlive k] at this
    cases this
  have hfound : ∀ k, i ≤ k → ∀ v, ((ρ.state k).worker v).foundEmpty = false := fun k hk v =>
    Bool.eq_false_iff.2 fun h => hp k hk (foundEmpty_of_reachable (ρ.reachable hs₀ k) v h)
  -- A worker at the head would take it.
  have hhead : ∀ k, i ≤ k → ∀ v, (ρ.state k).worker v ≠ .pollHead := by
    intro k hk v hv
    obtain ⟨k', hkk', l, hl, hv', hstep⟩ := exists_own_step hfair hv nofun nofun nofun
    obtain ⟨t, ts, hpending⟩ := List.exists_cons_of_ne_nil (hp k' (hk.trans hkk'))
    exact hnever k' (hk.trans hkk') v t ts hpending (taken_of_pollHead hstep hl hv' hpending)
  -- So nobody holds the lock.
  have hfree : ∀ k, i ≤ k → (ρ.state k).holder = none := by
    intro k hk
    cases hholder : (ρ.state k).holder with
    | none => rfl
    | some v =>
        have hholds := ((hc k).holder v).1 hholder
        rw [WorkerPc.holds_eq_false (hhead k hk v) (hfound k hk v) (hexit k v)] at hholds
        cases hholds
  -- So nobody wants it.
  have hwants : ∀ k, i ≤ k → ∀ v, (ρ.state k).worker v ≠ .poll ∧ (ρ.state k).worker v ≠ .woken := by
    intro k hk v
    have hlock : ∀ {pc : WorkerPc}, (ρ.state k).worker v = pc → pc ≠ .waiting → pc ≠ .done →
        (∀ s : State n m, ∀ pc', pc.Next s pc' → pc' = .pollHead) → False := by
      intro pc hv hwaiting hdone hnext
      obtain ⟨k', hkk', l, hl, hv', hstep⟩ := exists_own_step hfair hv hwaiting hdone
        fun _ j hj => hfree j (hk.trans hj)
      refine hhead (k' + 1) (hk.trans (hkk'.trans (Nat.le_succ k'))) v ?_
      exact hnext _ _ (hv' ▸ own_step hstep hl)
    exact ⟨fun hv => hlock hv nofun nofun (by rintro s _ ⟨⟩; rfl),
      fun hv => hlock hv nofun nofun (by rintro s _ ⟨⟩; rfl)⟩
  have hidle : ∀ k, i ≤ k → ∀ v, ((ρ.state k).worker v).task? = none →
      (ρ.state k).worker v = .waiting := fun k hk v hnone =>
    WorkerPc.eq_waiting hnone (hhead k hk v) (hfound k hk v) (hexit k v) (hwants k hk v)
  -- And nobody is busy, for he would come back.
  have hbusy : ∀ k, i ≤ k → ∀ v, ((ρ.state k).worker v).task? = none := by
    intro k hk v
    cases htask : ((ρ.state k).worker v).task? with
    | none => rfl
    | some t =>
        obtain ⟨k', hkk', -, hnone, hup⟩ := released_of_held hfair htask
        exact absurd (hidle k' (hk.trans hkk') v hnone) hup
  exact hidle j hj w (hbusy j hj w)

omit ρ in
/-- A thread's calls are carried on by its own steps only. -/
theorem call_step {s s' : State n m} {l} {τ : Thread n m} (h : Step s l s') (hl : l ≠ .call τ) :
    s'.call τ = s.call τ := by
  have hne : ∀ {υ pc}, (Label.call υ : Label n m) ≠ .call τ →
      Function.update s.call υ pc τ = s.call τ := by
    intro υ pc hυ
    refine Function.update_of_ne ?_ _ _
    rintro rfl
    exact hυ rfl
  cases h <;> first
    | rfl
    | exact hne hl

omit ρ in
/-- The signal of a submission wakes a worker that sleeps. -/
theorem woken_of_signal {s s' : State n m} {τ : Thread n m} {t : TaskId} {v : Fin n}
    (h : Step s (.call τ) s') (hcall : s.call τ = .submitSignal t) (hv : s.worker v = .waiting) :
    ∃ w, s'.worker w = .woken := by
  cases h
  case submitSignal w _ _ => exact ⟨w, Function.update_self ..⟩
  case submitSignalLost hw _ => exact absurd hv (hw v)
  all_goals simp_all [State.MayCall, CallPc.inProgress]

include hfair hs₀ hlive in
/-- **The head of the pending queue is taken.** -/
theorem exists_taken (hn : 0 < n) {i : ℕ} {t : TaskId} {ts : List TaskId}
    (hp : (ρ.state i).pending = t :: ts) :
    Eventually i fun j => (∃ more, (ρ.state j).pending = ts ++ more) ∧
      ∃ w, (ρ.state j).worker w = .polled t := by
  by_contra hnever
  have hhead : ∀ j, i ≤ j → ∃ more, (ρ.state j).pending = t :: (ts ++ more) := by
    intro j hj
    induction j, hj using Nat.le_induction with
    | base => exact ⟨[], by rw [hp, List.append_nil]⟩
    | succ j hj ih =>
        obtain ⟨more, hmore⟩ := ih
        rcases head_step hs₀ hlive hmore with ⟨more', hmore'⟩ | ⟨hrest, htaken⟩
        · exact ⟨more ++ more', by rw [hmore', List.append_assoc]⟩
        · exact absurd ⟨j + 1, hj.trans (Nat.le_succ j), ⟨more, hrest⟩, htaken⟩ hnever
  have hp' : ∀ j, i ≤ j → (ρ.state j).pending ≠ [] := by
    intro j hj hnil
    obtain ⟨more, hmore⟩ := hhead j hj
    rw [hnil] at hmore
    cases hmore
  have hwaiting : ∀ j, i ≤ j → ∀ w, (ρ.state j).worker w = .waiting := by
    refine fun j hj w => waiting_of_never_taken hfair hs₀ hlive hp' ?_ hj w
    rintro k hk v u us hu ⟨hrest, hv⟩
    obtain ⟨more, hmore⟩ := hhead k hk
    rw [hmore, List.cons.injEq] at hu
    obtain ⟨rfl, rfl⟩ := hu
    exact hnever ⟨k + 1, hk.trans (Nat.le_succ k), ⟨more, hrest⟩, v, hv⟩
  -- But a signal is still to come, and wakes one of them.
  obtain ⟨τ, u, hτ⟩ : ∃ τ u, (ρ.state i).call τ = .submitSignal u := by
    refine (attended_of_reachable hn (ρ.reachable hs₀ i) (hlive i) (hp' i le_rfl)).resolve_left ?_
    rintro ⟨w, hw⟩
    exact hw (hwaiting i le_rfl w)
  have hsignal := (hfair.call τ).takes (P := fun s => s.call τ = .submitSignal u) hτ
    (fun j hj hcall =>
      ⟨by rw [hcall]; rfl, _, _, rfl, .submitSignal ⟨0, hn⟩ hcall (hwaiting j hj _)⟩)
    (fun j _ l hl hcall hstep => by rw [call_step hstep hl, hcall])
  obtain ⟨j, hj, hcall, htakes⟩ := hsignal
  obtain ⟨l, rfl, hstep⟩ := htakes.step
  obtain ⟨w, hw⟩ := woken_of_signal hstep hcall (hwaiting j hj ⟨0, hn⟩)
  have hasleep := hwaiting (j + 1) (hj.trans (Nat.le_succ j)) w
  rw [hw] at hasleep
  cases hasleep

include hfair hs₀ hlive in
/-- A task in the queue comes to a worker. -/
theorem exists_held (hn : 0 < n) {i : ℕ} {t : TaskId} (ht : t ∈ (ρ.state i).pending) :
    Eventually i fun j => ∃ w, ((ρ.state j).worker w).task? = some t := by
  refine eventually_of_rank (P := fun j => t ∈ (ρ.state j).pending)
    (fun j => (ρ.state j).pending.idxOf t) ht fun j _ hj => ?_
  obtain ⟨u, us, hu⟩ := List.exists_cons_of_ne_nil (List.ne_nil_of_mem hj)
  refine (exists_taken hfair hs₀ hlive hn hu).mono fun k _ ⟨⟨more, hmore⟩, w, hw⟩ => ?_
  by_cases hut : u = t
  · subst hut
    exact .inl ⟨w, by rw [hw]; rfl⟩
  · have hmem : t ∈ us := by
      rw [hu] at hj
      exact (List.mem_cons.1 hj).resolve_left (Ne.symm hut)
    refine .inr ⟨by rw [hmore]; exact List.mem_append_left _ hmem, ?_⟩
    rw [hmore, hu, List.idxOf_append_of_mem hmem, List.idxOf_cons_ne _ hut]
    exact Nat.lt_succ_self _

omit ρ in
/-- A task that was released was finalized once, if it has a finalizer. -/
theorem finalized_of_freed {s : State n m} (hs : (system n m).Reachable s) {t : TaskId}
    (hfreed : (s.task t).freed = true) :
    (s.task t).finalize = true → (s.task t).results.length = 1 := by
  obtain ⟨a, ha⟩ := exists_refines hs
  intro hfinalize
  rw [(ha.counted t).results, if_pos hfinalize]
  rw [(ha.counted t).freed] at hfreed
  cases hlife : a t
  all_goals rw [hlife] at hfreed; first
    | rfl
    | cases hfreed

include hfair hs₀ hlive in
/-- **Every task is done in the end**: in a fair run of an executor that is not
destroyed, with at least one worker, each submitted task is released, after its
finalizer was invoked once. -/
theorem exists_finished (hn : 0 < n) {i : ℕ} {t : TaskId} (ht : t < (ρ.state i).submitted) :
    ∃ j, i ≤ j ∧ ((ρ.state j).task t).freed = true ∧
      (((ρ.state j).task t).finalize = true → ((ρ.state j).task t).results.length = 1) := by
  have hs := ρ.reachable hs₀
  obtain ⟨a, ha⟩ := exists_refines (hs i)
  have hheld : ∀ {k w}, i ≤ k → ((ρ.state k).worker w).task? = some t →
      Eventually i fun j => ((ρ.state j).task t).freed = true := by
    intro k w hik hw
    obtain ⟨j, hkj, hfreed, -⟩ := released_of_held hfair hw
    exact ⟨j, hik.trans hkj, hfreed⟩
  have hfreed : Eventually i fun j => ((ρ.state j).task t).freed = true := by
    cases hlife : a t with
    | absent => exact absurd ((ha.queue.absent t).1 hlife) (Nat.not_le_of_lt ht)
    | waiting =>
        have hclear : ∀ w, ((ρ.state i).worker w).clearRest? = none := by
          intro w
          cases hrest : ((ρ.state i).worker w).clearRest? with
          | none => rfl
          | some ts =>
              have hexit := (WorkerPc.of_clearRest? hrest).2.1
              have hd := (control_of_reachable (hs i)).exiting w hexit
              rw [hlive i] at hd
              cases hd
        have hmem := (ha.queue.waiting t).1 hlife
        rw [State.queued_eq_pending hclear] at hmem
        obtain ⟨k, hik, w, hw⟩ := exists_held hfair hs₀ hlive hn hmem
        exact hheld hik hw
    | held w acted finalized => exact hheld le_rfl ((ha.workers w).held t acted finalized hlife)
    | finished acted =>
        refine .now ?_
        rw [(ha.counted t).freed, hlife]
        rfl
  obtain ⟨j, hij, hj⟩ := hfreed
  exact ⟨j, hij, hj, finalized_of_freed (hs j) hj⟩

end

/-- An executor that was destroyed stays so. -/
theorem destroyed_of_le {s₀ : State n m} {ρ : (system n m).Run s₀} {i j : ℕ}
    (h : (ρ.state i).destroyed = true) (hij : i ≤ j) : (ρ.state j).destroyed = true := by
  refine Run.preserves (P := fun s : State n m => s.destroyed = true) h
    (fun k _ l hd hstep => ?_) hij
  by_contra hfalse
  rw [destroyed_step hstep (Bool.eq_false_iff.2 hfalse)] at hd
  cases hd

/-- A run that ends with all workers asleep or at their end, and no call in
progress, is fair. -/
theorem fairRun_of_end {s₀ s : State n m} {ρ : (system n m).Run s₀} {k : ℕ}
    (hend : ∀ i, k ≤ i → ρ.state i = s ∧ ρ.label i = none)
    (hw : ∀ w, s.worker w = .waiting ∨ s.worker w = .done)
    (hcall : ∀ τ, (s.call τ).inProgress = false)
    (hd : s.destroyer = .idle ∨ s.destroyer = .joined) : FairRun ρ where
  worker w := Run.fair_of_end hend (by
    rintro ⟨l, s', hl, h⟩
    have hnext := own_step h (.inl hl)
    rcases hw w with hw | hw <;>
    · rw [hw] at hnext
      cases hnext) _
  callback w := Run.fair_of_end hend (by rcases hw w with hw | hw <;> (rw [hw]; nofun)) _
  call τ := Run.fair_of_end hend (by rw [hcall τ]; nofun) _
  destroy := Run.fair_of_end hend (by
    rintro ⟨hidle, l, s', rfl, h⟩
    rcases hd with hd | hd
    · exact hidle hd
    · cases h <;> simp_all) _

/-- A task is submitted before the worker looks for one, and done. -/
theorem exists_finished_one : ∃ ρ : (system 1 1).Run (executorCreate 1 1), FairRun ρ ∧
    ∃ j, ((ρ.state j).task 0).freed = true ∧ ((ρ.state j).task 0).results.length = 1 := by
  obtain ⟨s, hpath, hw, hcall, hdestroyed, hd, ht, hf⟩ : ∃ s : State 1 1,
      (∃ ls, ((system 1 1).restrict fun _ _ => True).Path (executorCreate 1 1) ls s) ∧
        (∀ w, s.worker w = .waiting ∨ s.worker w = .done) ∧
          (∀ τ, (s.call τ).inProgress = false) ∧ s.destroyed = false ∧ s.destroyer = .idle ∧
            0 < s.submitted ∧ (s.task 0).finalize = true :=
    ⟨_, ⟨_, .cons ⟨trivial, .submitAccepted (τ := .outside 0) true ⟨rfl, rfl⟩ rfl⟩ <|
      .cons ⟨trivial, .submitPush (τ := .outside 0) 16 rfl (by rintro w ⟨⟩) (by rintro t ⟨⟩)⟩ <|
      .cons ⟨trivial, .submitSignalLost (τ := .outside 0) rfl (by rintro w ⟨⟩)⟩ <|
      .cons ⟨trivial, .pollLock (w := 0) rfl rfl⟩ <|
      .cons ⟨trivial, .pollTake (w := 0) rfl rfl⟩ <|
      .cons ⟨trivial, .checkAlive (w := 0) rfl rfl⟩ <|
      .cons ⟨trivial, .pushActive (w := 0) rfl⟩ <|
      .cons ⟨trivial, .runAction (w := 0) rfl rfl⟩ <|
      .cons ⟨trivial, .actionReturn (w := 0) 0 rfl rfl⟩ <|
      .cons ⟨trivial, .recheck (w := 0) rfl⟩ <| .cons ⟨trivial, .finalize (w := 0) rfl⟩ <|
      .cons ⟨trivial, .finalizerReturn (w := 0) rfl rfl⟩ <|
      .cons ⟨trivial, .removeActive (w := 0) rfl⟩ <|
      .cons ⟨trivial, .destroyTask (w := 0) rfl⟩ <| .cons ⟨trivial, .pollLock (w := 0) rfl rfl⟩ <|
      .cons ⟨trivial, .pollEmpty (w := 0) rfl rfl⟩ <|
      .cons ⟨trivial, .pollAlive (w := 0) rfl rfl⟩ <|
      .cons ⟨trivial, .condWait (w := 0) rfl⟩ <| .nil _⟩,
      by decide, fun τ => by obtain _ | ⟨_ | _, ⟨⟩⟩ := τ <;> rfl, rfl, rfl, Nat.one_pos, rfl⟩
  obtain ⟨ls, hpath⟩ := hpath
  obtain ⟨ρ, hend, -⟩ := Run.exists_of_path hpath
  have hfair := fairRun_of_end hend hw hcall (.inl hd)
  have hlive : ∀ i, (ρ.state i).destroyed = false := by
    refine fun i => Bool.eq_false_iff.2 fun h => ?_
    have hlater := destroyed_of_le h (le_max_left i ls.length)
    rw [(hend _ (le_max_right i ls.length)).1, hdestroyed] at hlater
    cases hlater
  have hsubmitted : 0 < (ρ.state ls.length).submitted := by rwa [(hend _ le_rfl).1]
  obtain ⟨j, hj, hfreed, hresults⟩ :=
    exists_finished hfair rfl hlive (numThreads_pos 1 Nat.one_pos) hsubmitted
  refine ⟨ρ, hfair, j, hfreed, hresults ?_⟩
  rw [(hend j hj).1, hf]

end CommonsC.Executor
