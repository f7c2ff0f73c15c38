import CommonsC.Executor.Progress
import CommonsC.Executor.Shutdown

/-!
# CommonsC.Executor.Join

`executor_destroy` comes to its end.

Once the executor is destroyed and no worker sleeps, each worker only gets
closer to the end of `thread_worker` (`WorkerPc.stage`), and so they all come to
a stand (`exists_settled`).  A worker that stands elsewhere than at its end would
need `pending.lock`, and no one would hold it (`exists_done`).  What is left of
`queue_clear` is measured by `WorkerPc.sweep`.
-/

namespace CommonsC.Executor

open TransitionSystem

variable {n m : Nat}

/-! ## The way out -/

/-- How far the worker is from its end, while the executor is destroyed. -/
def WorkerPc.stage : WorkerPc → Nat
  | .pushActive _ => 17
  | .readCancelled _ => 16
  | .action _ => 15
  | .recheck _ _ => 14
  | .finalize _ _ => 13
  | .finalizer _ => 12
  | .removeActive _ => 11
  | .destroyTask _ => 10
  | .poll | .woken | .pollWait | .waiting => 9
  | .pollHead => 8
  | .pollDestroyed => 7
  | .polled _ => 6
  | .finalizeLast _ => 5
  | .finalizerLast _ => 4
  | .destroyLast _ => 3
  | .clear => 2
  | .clearing _ | .clearFinalize _ _ | .clearFinalizer _ _ | .clearDestroy _ _ => 1
  | .done => 0

/-- How much of `queue_clear` is left. -/
def WorkerPc.sweep : WorkerPc → Nat
  | .clearing ts => 4 * ts.length
  | .clearFinalize _ ts => 4 * ts.length + 3
  | .clearFinalizer _ ts => 4 * ts.length + 2
  | .clearDestroy _ ts => 4 * ts.length + 1
  | _ => 0

/-- A worker gets closer to its end, but for the tasks in `queue_clear`. -/
theorem WorkerPc.Next.stage_lt {s : State n m} {pc pc' : WorkerPc} (h : pc.Next s pc')
    (hd : s.destroyed = true) (hb : pc.blocking = false) :
    pc'.stage < pc.stage ∨ (pc.stage = 1 ∧ pc'.stage = 1 ∧ pc'.sweep < pc.sweep) := by
  cases h
  case pollAlive hfalse => exact absurd hd (by simp [hfalse])
  case checkAlive hfalse => exact absurd hd (by simp [hfalse])
  case condWait => cases hb
  case clearTake => exact .inr ⟨rfl, rfl, by simp only [sweep, List.length_cons]; omega⟩
  case clearFinalize => exact .inr ⟨rfl, rfl, Nat.lt_succ_self _⟩
  case clearReturn => exact .inr ⟨rfl, rfl, Nat.lt_succ_self _⟩
  case clearDestroy => exact .inr ⟨rfl, rfl, Nat.lt_succ_self _⟩
  all_goals exact .inl (by simp [stage])

/-- Who holds the lock does not need it. -/
theorem WorkerPc.needsLock_of_holds {pc : WorkerPc} (h : pc.holds = true) :
    pc.needsLock = false := by
  cases pc <;> first
    | rfl
    | cases h

theorem WorkerPc.needsLock_of_stage {pc : WorkerPc} (h : pc.stage = 1) :
    pc.needsLock = false := by
  cases pc <;> first
    | rfl
    | cases h

/-- No worker gets farther from its end. -/
theorem stage_step {s s' : State n m} {l} (h : Step s l s') (hd : s.destroyed = true)
    (hb : ∀ w, (s.worker w).blocking = false) (w : Fin n) :
    (s'.worker w).stage ≤ (s.worker w).stage := by
  by_cases hl : Own w l
  · rcases (own_step h hl).stage_lt hd (hb w) with hlt | ⟨hone, hone', -⟩
    · exact hlt.le
    · exact (hone'.trans hone.symm).le
  · rcases other_step h hl with hsame | ⟨hw, -⟩
    · exact hsame ▸ le_rfl
    · have hblocking := hb w
      rw [hw] at hblocking
      cases hblocking

/-- The steps of `executor_destroy` are its own. -/
theorem destroyer_step {s s' : State n m} {l} (h : Step s l s') (hl : l ≠ .destroy) :
    s'.destroyer = s.destroyer := by
  cases h <;> first
    | rfl
    | exact absurd rfl hl

/-- The next thing that `executor_destroy` does. -/
def DestroyPc.next : DestroyPc → DestroyPc
  | .idle => .broadcastActive
  | .broadcastActive => .broadcastPending
  | .broadcastPending => .join
  | .join | .joined => .joined

theorem next_destroyer {s s' : State n m} (h : Step s .destroy s') :
    s'.destroyer = s.destroyer.next := by
  cases h <;>
  · rw [‹s.destroyer = _›]
    rfl

section

variable {s₀ : State n m} {ρ : (system n m).Run s₀}

/-- No broadcast of `executor_destroy` is lost in the run. -/
def NoneLost (ρ : (system n m).Run s₀) : Prop := ∀ i, ∀ l ∈ ρ.label i, BroadcastSeen (ρ.state i) l

variable (hfair : FairRun ρ) (hs₀ : (system n m).init s₀) (hseen : NoneLost ρ)

include hs₀ hseen in
theorem woken_run (i : ℕ) : Woken (ρ.state i) := by
  induction i with
  | zero =>
      intro hd
      have hinit : s₀ = executorCreate n m := hs₀
      rw [ρ.start, hinit] at hd
      cases hd
  | succ i ih =>
      rcases ρ.next_cases i with ⟨-, hsame⟩ | ⟨l, hl, hstep⟩
      · rwa [hsame]
      · exact woken_step (control_of_reachable (ρ.reachable hs₀ i)) ih (hseen i l hl) hstep

include hfair in
/-- A step of `executor_destroy` is taken where it can be. -/
theorem exists_destroy_step {i : ℕ} {d : DestroyPc} (hd : (ρ.state i).destroyer = d)
    (hidle : d ≠ .idle)
    (henabled : ∀ j, i ≤ j → (ρ.state j).destroyer = d →
      (system n m).Enabled (· = .destroy) (ρ.state j)) :
    Eventually i fun j => (ρ.state j).destroyer = d ∧ (ρ.state (j + 1)).destroyer = d.next := by
  have htakes := hfair.destroy.takes (P := fun s => s.destroyer = d) hd
    (fun j hj hdj => ⟨hdj ▸ hidle, henabled j hj hdj⟩)
    (fun j _ l hl hdj hstep => by rw [destroyer_step hstep hl, hdj])
  refine htakes.mono fun j _ ⟨hdj, htakes⟩ => ⟨hdj, ?_⟩
  obtain ⟨l, rfl, hstep⟩ := htakes.step
  rw [← hdj, next_destroyer hstep]

include hfair in
/-- `executor_destroy` comes to wait for the workers. -/
theorem exists_join {i : ℕ} (hd : (ρ.state i).destroyer ≠ .idle) :
    Eventually i fun j => (ρ.state j).destroyer.pastBroadcast = true := by
  have hpending : ∀ {j}, (ρ.state j).destroyer = .broadcastPending →
      Eventually j fun k => (ρ.state k).destroyer.pastBroadcast = true := by
    intro j hj
    obtain ⟨k, hjk, -, hk⟩ := exists_destroy_step hfair hj nofun
      fun k _ hk => ⟨_, _, rfl, .destroyBroadcastPending hk⟩
    refine ⟨k + 1, hjk.trans (Nat.le_succ k), ?_⟩
    change (ρ.state (k + 1)).destroyer.pastBroadcast = true
    rw [hk]
    rfl
  cases hd' : (ρ.state i).destroyer with
  | idle => exact absurd hd' hd
  | broadcastActive =>
      obtain ⟨k, hik, -, hk⟩ := exists_destroy_step hfair hd' nofun
        fun k _ hk => ⟨_, _, rfl, .destroyBroadcastActive hk⟩
      obtain ⟨j, hkj, hj⟩ := hpending hk
      exact ⟨j, hik.trans ((Nat.le_succ k).trans hkj), hj⟩
  | broadcastPending => exact hpending hd'
  | join => exact .now (by rw [hd']; rfl)
  | joined => exact .now (by rw [hd']; rfl)

include hfair hs₀ hseen in
/-- **All workers come to their end** after the broadcast. -/
theorem exists_done {i : ℕ} (hd : (ρ.state i).destroyer.pastBroadcast = true) :
    Eventually i fun j => ∀ k, j ≤ k → ∀ w, (ρ.state k).worker w = .done := by
  have hpast : ∀ j, i ≤ j → (ρ.state j).destroyer.pastBroadcast = true := fun j hj =>
    Run.preserves (P := fun s : State n m => s.destroyer.pastBroadcast = true) hd
      (fun _ _ _ hd hstep => pastBroadcast_step hstep hd) hj
  have hblocking : ∀ j, i ≤ j → ∀ w, ((ρ.state j).worker w).blocking = false := fun j hj =>
    woken_run hs₀ hseen j (hpast j hj)
  have hc := fun j => control_of_reachable (ρ.reachable hs₀ j)
  have hdestroyed : ∀ j, i ≤ j → (ρ.state j).destroyed = true := fun j hj =>
    (hc j).destroyed_iff.2 fun hidle => by
      have := hpast j hj
      rw [hidle] at this
      cases this
  obtain ⟨N, hiN, hsettled⟩ := exists_settled (fun w j => ((ρ.state j).worker w).stage)
    (i := i) fun w j hj => by
      rcases ρ.next_cases j with ⟨-, hsame⟩ | ⟨l, -, hstep⟩
      · rw [hsame]
      · exact stage_step hstep (hdestroyed j hj) (hblocking j hj) w
  -- Who can go on is in `queue_clear`.
  have hgo : ∀ j, N ≤ j → ∀ w, (ρ.state j).worker w ≠ .done →
      (((ρ.state j).worker w).needsLock = true → ∀ k, j ≤ k → (ρ.state k).holder = none) →
      Eventually j fun k => ((ρ.state k).worker w).stage = 1 ∧
        ((ρ.state j).worker w).stage = 1 ∧
          ((ρ.state k).worker w).sweep < ((ρ.state j).worker w).sweep := by
    intro j hj w hdone hlock
    have hup : (ρ.state j).worker w ≠ .waiting := fun hw => by
      have := hblocking j (hiN.trans hj) w
      rw [hw] at this
      cases this
    obtain ⟨k, hjk, l, hl, hk, hstep⟩ := exists_own_step hfair rfl hup hdone hlock
    have hNk := hj.trans hjk
    refine ⟨k + 1, hjk.trans (Nat.le_succ k), ?_⟩
    have hsame := hsettled (k + 1) (hNk.trans (Nat.le_succ k)) w
    rcases (own_step hstep hl).stage_lt (hdestroyed k (hiN.trans hNk))
      (hblocking k (hiN.trans hNk) w) with hlt | ⟨hone, hone', hsweep⟩
    · rw [hsame, ← hsettled k hNk w] at hlt
      exact absurd hlt (lt_irrefl _)
    · rw [hk] at hone hsweep
      exact ⟨hone', hone, hsweep⟩
  -- It comes to an end, too.
  have hswept : ∀ j, N ≤ j → ∀ w, ((ρ.state j).worker w).stage ≠ 1 := by
    intro j hj w hone
    obtain ⟨-, -, hfalse⟩ := eventually_of_rank (Q := fun _ => False)
      (P := fun k => ((ρ.state k).worker w).stage = 1)
      (fun k => ((ρ.state k).worker w).sweep) hone fun k hjk hk => by
        have hlock := WorkerPc.needsLock_of_stage hk
        refine (hgo k (hj.trans hjk) w (fun hdone => ?_) fun h => ?_).mono
          fun _ _ h => .inr ⟨h.1, h.2.2⟩
        · rw [hdone] at hk
          cases hk
        · rw [hlock] at h
          cases h
    exact hfalse
  have hwants : ∀ j, N ≤ j → ∀ w, (ρ.state j).worker w ≠ .done →
      ((ρ.state j).worker w).needsLock = true := by
    intro j hj w hdone
    by_contra hlock
    obtain ⟨-, -, -, hone, -⟩ := hgo j hj w hdone fun h => absurd h hlock
    exact hswept j hj w hone
  have hfree : ∀ j, N ≤ j → (ρ.state j).holder = none := by
    intro j hj
    cases hholder : (ρ.state j).holder with
    | none => rfl
    | some v =>
        have hholds := ((hc j).holder v).1 hholder
        have hlock := hwants j hj v fun hdone => by
          rw [hdone] at hholds
          cases hholds
        rw [WorkerPc.needsLock_of_holds hholds] at hlock
        cases hlock
  refine ⟨N, hiN, fun k hk w => ?_⟩
  by_contra hdone
  obtain ⟨-, -, -, hone, -⟩ := hgo k hk w hdone fun _ j hj => hfree j (hk.trans hj)
  exact hswept k hk w hone

include hfair hs₀ hseen in
/-- **`executor_destroy` returns**: in a fair run in which none of its broadcasts
is lost, `executor_destroy` joins all workers once it was called, and then every
submitted task is released, after its finalizer was invoked once. -/
theorem exists_joined_all (hn : 0 < n) {i : ℕ} (hd : (ρ.state i).destroyer ≠ .idle) :
    ∃ j, i ≤ j ∧ (ρ.state j).destroyer = .joined ∧ (ρ.state j).pending = [] ∧
      ∀ t < (ρ.state j).submitted, ((ρ.state j).task t).freed = true ∧
        (((ρ.state j).task t).finalize = true → ((ρ.state j).task t).results.length = 1) := by
  have hs := ρ.reachable hs₀
  have hjoined : Eventually i fun j => (ρ.state j).destroyer = .joined := by
    obtain ⟨j, hij, hj⟩ := exists_join hfair hd
    obtain ⟨k, hjk, hdone⟩ := exists_done hfair hs₀ hseen hj
    have hpast := Run.preserves (P := fun s : State n m => s.destroyer.pastBroadcast = true)
      hj (fun _ _ _ hd hstep => pastBroadcast_step hstep hd) hjk
    cases hk : (ρ.state k).destroyer with
    | joined => exact ⟨k, hij.trans hjk, hk⟩
    | join =>
        obtain ⟨k', hkk', -, hk'⟩ := exists_destroy_step hfair hk nofun
          fun l hl hjoin => ⟨_, _, rfl, .destroyJoin hjoin (hdone l hl)⟩
        exact ⟨k' + 1, hij.trans (hjk.trans (hkk'.trans (Nat.le_succ k'))), hk'⟩
    | _ =>
        rw [hk] at hpast
        cases hpast
  obtain ⟨j, hij, hj⟩ := hjoined
  have hdone := joined_of_reachable (hs j) hj
  have hpending := drained_of_reachable hn (hs j) hdone
  obtain ⟨a, ha⟩ := exists_refines (hs j)
  refine ⟨j, hij, hj, hpending, fun t ht => ?_⟩
  obtain ⟨acted, hlife⟩ := ha.finished (control_of_reachable (hs j)) hdone hpending ht
  have hfreed : ((ρ.state j).task t).freed = true := by
    rw [(ha.counted t).freed, hlife]
    rfl
  exact ⟨hfreed, finalized_of_freed (hs j) hfreed⟩

end

/-- A task is submitted, and the executor destroyed before the worker looks for
it. -/
theorem exists_joined_all_one : ∃ ρ : (system 1 1).Run (executorCreate 1 1), FairRun ρ ∧
    NoneLost ρ ∧ ∃ j, (ρ.state j).destroyer = .joined ∧ ((ρ.state j).task 0).freed = true ∧
      ((ρ.state j).task 0).results.length = 1 := by
  obtain ⟨s, hpath, hw, hcall, hd, ht, hf⟩ : ∃ s : State 1 1,
      (∃ ls, ((system 1 1).restrict BroadcastSeen).Path (executorCreate 1 1) ls s) ∧
        (∀ w, s.worker w = .waiting ∨ s.worker w = .done) ∧
          (∀ τ, (s.call τ).inProgress = false) ∧ s.destroyer = .joined ∧
            0 < s.submitted ∧ (s.task 0).finalize = true :=
    ⟨_, ⟨_, .cons ⟨by nofun, .submitAccepted (τ := .outside 0) true ⟨rfl, rfl⟩ rfl⟩ <|
      .cons ⟨by nofun, .submitPush (τ := .outside 0) 16 rfl (by rintro w ⟨⟩) (by rintro t ⟨⟩)⟩ <|
      .cons ⟨by nofun, .submitSignalLost (τ := .outside 0) rfl (by rintro w ⟨⟩)⟩ <|
      .cons ⟨by rintro - ⟨⟩, .destroySet rfl (by decide)⟩ <|
      .cons ⟨by rintro - ⟨⟩, .destroyBroadcastActive rfl⟩ <|
      .cons ⟨fun _ _ => by decide, .destroyBroadcastPending rfl⟩ <|
      .cons ⟨by nofun, .pollLock (w := 0) rfl rfl⟩ <|
      .cons ⟨by nofun, .pollTake (w := 0) rfl rfl⟩ <|
      .cons ⟨by nofun, .checkDestroyed (w := 0) rfl rfl⟩ <|
      .cons ⟨by nofun, .finalizeLast (w := 0) rfl⟩ <|
      .cons ⟨by nofun, .finalizerLastReturn (w := 0) rfl rfl⟩ <|
      .cons ⟨by nofun, .destroyLast (w := 0) rfl⟩ <|
      .cons ⟨by nofun, .clearLock (w := 0) rfl rfl⟩ <|
      .cons ⟨by nofun, .clearDone (w := 0) rfl⟩ <|
      .cons ⟨by rintro - ⟨⟩, .destroyJoin rfl (by decide)⟩ <| .nil _⟩,
      by decide, fun τ => by obtain _ | ⟨_ | _, ⟨⟩⟩ := τ <;> rfl, rfl, Nat.one_pos, rfl⟩
  obtain ⟨ls, hpath⟩ := hpath
  obtain ⟨ρ, hend, hseen⟩ := Run.exists_of_path hpath
  have hfair := fairRun_of_end hend hw hcall (.inr hd)
  have hcalled : (ρ.state ls.length).destroyer ≠ .idle := by
    rw [(hend _ le_rfl).1, hd]
    nofun
  obtain ⟨j, hj, hjoined, -, htasks⟩ :=
    exists_joined_all hfair rfl hseen (numThreads_pos 1 Nat.one_pos) hcalled
  have hstate := (hend j hj).1
  obtain ⟨hfreed, hresults⟩ := htasks 0 (by rwa [hstate])
  exact ⟨ρ, hfair, hseen, j, hjoined, hfreed, hresults (by rw [hstate, hf])⟩

end CommonsC.Executor
