import CommonsC.Base.FlagMonitor

/-!
# CommonsC.CecSdl.Shutdown

How `cec_sdl_deinit` stops the worker (`device/cec-sdl/cec_sdl.c`).

The worker waits on `cond` under `cond_lock` until `quit` is set.  The caller of
`cec_sdl_deinit` sets `quit` and signals under `lock`, which the worker does not
take.  The two are a flag and its waiter without a common lock
(`CommonsC.Base.FlagMonitor`), so a signal can be lost; `SDL_WaitThread` then
never returns.  And where the library could not be loaded there is nothing that
`libcecc_destroy` can close.
-/

namespace CommonsC.CecSdl

open TransitionSystem

/-- Where `cec_thread_worker` is. -/
inductive Worker
  /-- Before `libcecc_initialise`. -/
  | initialise
  /-- Before `SDL_LockMutex`. -/
  | lock
  /-- At the test of `quit`. -/
  | test
  /-- Before `SDL_CondWait`. -/
  | condWait
  | waiting
  | woken
  /-- Before `SDL_UnlockMutex`. -/
  | unlock
  | ended
  /-- libCEC was loaded, but could not be initialised. -/
  | failed
  /-- libCEC could not be loaded: the interface is all zero. -/
  | unloaded
  deriving DecidableEq

/-- Where `cec_sdl_deinit` is. -/
inductive Deinit
  | uncalled
  /-- It has `lock`. -/
  | locked
  /-- `quit` is set. -/
  | quit
  /-- The signal was sent. -/
  | signalled
  /-- In `SDL_WaitThread`. -/
  | waitThread
  /-- The thread has ended; what it used is destroyed. -/
  | destroy
  | returned
  /-- `libcecc_destroy` has closed a library that is `NULL`. -/
  | crashed
  deriving DecidableEq

/-- The two threads, and `quit`. -/
structure Ctx where
  worker : Worker
  deinit : Deinit
  quit : Bool
  deriving DecidableEq

/-- The steps of the worker, wake-ups without a signal, and the steps of
`cec_sdl_deinit`, beginning with its call. -/
inductive Label
  | initialise
  | lock
  | test
  | condWait
  | relock
  | unlock
  | wake
  | call
  | setQuit
  | signal
  | waitThread
  | joined
  | destroy
  deriving DecidableEq

/-- The steps of the worker. -/
def Label.OfWorker : Label → Prop
  | .initialise | .lock | .test | .condWait | .relock | .unlock => True
  | _ => False

/-- The steps of `cec_sdl_deinit` after it was called. -/
def Label.OfDeinit : Label → Prop
  | .setQuit | .signal | .waitThread | .joined | .destroy => True
  | _ => False

/-- `SDL_CondSignal`. -/
def Worker.signal : Worker → Worker
  | .waiting => .woken
  | w => w

/-- The thread has returned. -/
def Worker.Over : Worker → Prop
  | .ended | .failed | .unloaded => True
  | _ => False

/-- `cec_sdl_deinit` has destroyed the library, or tried to. -/
def Deinit.Destroys : Deinit → Prop
  | .destroy | .returned | .crashed => True
  | _ => False

/-- What the steps do. -/
inductive Step : Ctx → Label → Ctx → Prop
  | initialise {d : Deinit} {q : Bool} : Step ⟨.initialise, d, q⟩ .initialise ⟨.lock, d, q⟩
  | initialiseFails {d : Deinit} {q : Bool} : Step ⟨.initialise, d, q⟩ .initialise ⟨.failed, d, q⟩
  | loadFails {d : Deinit} {q : Bool} : Step ⟨.initialise, d, q⟩ .initialise ⟨.unloaded, d, q⟩
  | lock {d : Deinit} {q : Bool} : Step ⟨.lock, d, q⟩ .lock ⟨.test, d, q⟩
  | test {d : Deinit} {q : Bool} :
      Step ⟨.test, d, q⟩ .test ⟨if q then .unlock else .condWait, d, q⟩
  | condWait {d : Deinit} {q : Bool} : Step ⟨.condWait, d, q⟩ .condWait ⟨.waiting, d, q⟩
  | wake {d : Deinit} {q : Bool} : Step ⟨.waiting, d, q⟩ .wake ⟨.woken, d, q⟩
  | relock {d : Deinit} {q : Bool} : Step ⟨.woken, d, q⟩ .relock ⟨.test, d, q⟩
  | unlock {d : Deinit} {q : Bool} : Step ⟨.unlock, d, q⟩ .unlock ⟨.ended, d, q⟩
  | call {w : Worker} {q : Bool} : Step ⟨w, .uncalled, q⟩ .call ⟨w, .locked, q⟩
  | setQuit {w : Worker} {q : Bool} : Step ⟨w, .locked, q⟩ .setQuit ⟨w, .quit, true⟩
  | signal {w : Worker} {q : Bool} : Step ⟨w, .quit, q⟩ .signal ⟨w.signal, .signalled, q⟩
  | waitThread {w : Worker} {q : Bool} : Step ⟨w, .signalled, q⟩ .waitThread ⟨w, .waitThread, q⟩
  | joined {w : Worker} {q : Bool} :
      w.Over → Step ⟨w, .waitThread, q⟩ .joined ⟨w, .destroy, q⟩
  | destroy {w : Worker} {q : Bool} :
      w ≠ .unloaded → Step ⟨w, .destroy, q⟩ .destroy ⟨w, .returned, q⟩
  | destroyCrashes {q : Bool} : Step ⟨.unloaded, .destroy, q⟩ .destroy ⟨.unloaded, .crashed, q⟩

/-- The context after `cec_sdl_init`. -/
def Ctx.initial : Ctx := ⟨.initialise, .uncalled, false⟩

/-- The context with its worker. -/
def system : TransitionSystem Ctx Label where
  init s := s = Ctx.initial
  step := Step

/-! ## The worker as a waiter -/

/-- The worker as a waiter, which begins when libCEC is initialised. -/
def Worker.waiter : Worker → FlagMonitor.Waiter
  | .initialise | .lock | .failed | .unloaded => .apart
  | .test => .test
  | .condWait => .gap
  | .waiting => .waiting
  | .woken => .woken
  | .unlock => .leaving
  | .ended => .past

/-- `cec_sdl_deinit` as a setter. -/
def Deinit.setter : Deinit → FlagMonitor.Setter
  | .uncalled => .apart
  | .locked => .inside
  | .quit => .raised
  | .signalled => .signalled
  | .waitThread | .destroy | .returned | .crashed => .done

/-- The steps of the monitor. -/
def Label.seen : Label → Option FlagMonitor.Label
  | .lock | .relock => some .acquire
  | .test => some .look
  | .condWait => some .block
  | .unlock => some .leave
  | .wake => some .wake
  | .call => some .enter
  | .setQuit => some .raise
  | .signal => some .signal
  | .waitThread => some .exit
  | .initialise | .joined | .destroy => none

def Ctx.monitor (s : Ctx) : FlagMonitor.State := ⟨s.worker.waiter, s.deinit.setter⟩

theorem waiter_signal (w : Worker) : w.signal.waiter = w.waiter.signal := by
  cases w <;> rfl

theorem waiter_eq_gap {w : Worker} : w.waiter = .gap ↔ w = .condWait := by
  cases w <;> decide

theorem waiter_of_over {w : Worker} (h : w.Over) : ¬(w.waiter = .waiting ∨ w.waiter = .gap) := by
  cases w <;> first | exact h.elim | decide

theorem waiter_eq_past {w : Worker} : w.waiter = .past ↔ w = .ended := by
  cases w <;> decide

/-- A step is one of the monitor without a lock. -/
theorem step_seen {s s' : Ctx} {l : Label} (hquit : s.quit = s.deinit.setter.flag)
    (h : Step s l s') : l.seen.elim (s'.monitor = s.monitor)
      fun k => FlagMonitor.Step False s.monitor k s'.monitor := by
  cases h with
  | initialise | initialiseFails | loadFails => rfl
  | lock => exact .acquire (.inl rfl) fun h => h.1
  | relock => exact .acquire (.inr rfl) fun h => h.1
  | @test d q =>
      obtain rfl : q = d.setter.flag := hquit
      have hlook : (if d.setter.flag then Worker.unlock else .condWait).waiter =
          if d.setter.flag then .leaving else .gap := by
        cases d.setter.flag <;> rfl
      change FlagMonitor.Step False _ .look ⟨_, _⟩
      rw [hlook]
      exact .look
  | condWait => exact .block
  | wake => exact .wake
  | unlock => exact .leave
  | call => exact .enter fun h => h.1
  | setQuit => exact .raise
  | @signal w q =>
      change FlagMonitor.Step False _ .signal ⟨_, _⟩
      rw [waiter_signal]
      exact .signal
  | waitThread => exact .exit
  | joined | destroy | destroyCrashes => rfl

theorem quit_of_reachable {s : Ctx} (hs : system.Reachable s) : s.quit = s.deinit.setter.flag := by
  refine hs.invariant (P := fun s => s.quit = s.deinit.setter.flag) (fun s hs => ?_)
    fun s l s' _ h hstep => ?_
  · rw [show s = Ctx.initial from hs]
    rfl
  · cases hstep <;> first | exact h | rfl

/-- What is destroyed is destroyed when the thread has returned, and the library
is closed exactly if it was loaded. -/
structure Ctx.Closes (s : Ctx) : Prop where
  ended : s.deinit.Destroys → s.worker.Over
  loaded : s.deinit = .returned → s.worker ≠ .unloaded
  unloaded : s.deinit = .crashed → s.worker = .unloaded

/-- Nothing has been destroyed yet. -/
theorem closes_of_not_destroys {s : Ctx} (h : ¬s.deinit.Destroys) : s.Closes where
  ended hdestroys := absurd hdestroys h
  loaded hreturned := absurd (hreturned ▸ trivial) h
  unloaded hcrashed := absurd (hcrashed ▸ trivial) h

theorem closes_of_reachable {s : Ctx} (hs : system.Reachable s) : s.Closes := by
  refine hs.invariant (fun s hs => ?_) fun s l s' _ h hstep => ?_
  · rw [show s = Ctx.initial from hs]
    exact closes_of_not_destroys id
  · cases hstep with
    | initialise | initialiseFails | loadFails | lock | test | condWait | wake | relock | unlock =>
        exact closes_of_not_destroys h.ended
    | call | setQuit | signal | waitThread => exact closes_of_not_destroys id
    | joined hover => exact ⟨fun _ => hover, nofun, nofun⟩
    | destroy hloaded => exact ⟨fun _ => h.ended trivial, fun _ => hloaded, nofun⟩
    | destroyCrashes => exact ⟨fun _ => trivial, nofun, fun _ => rfl⟩

/-! ## Runs -/

/-- The worker has a step to make. -/
def Ctx.WorkerRuns (s : Ctx) : Prop := s.worker ≠ .waiting ∧ ¬s.worker.Over

/-- `cec_sdl_deinit` has a step to make. -/
def Ctx.DeinitRuns (s : Ctx) : Prop :=
  s.deinit ≠ .uncalled ∧ (s.deinit ≠ .returned ∧ s.deinit ≠ .crashed) ∧
    (s.deinit = .waitThread → s.worker.Over)

/-- How far `cec_sdl_deinit` is from its end. -/
def Deinit.ahead : Deinit → ℕ
  | .uncalled => 6
  | .locked => 5
  | .quit => 4
  | .signalled => 3
  | .waitThread => 2
  | .destroy => 1
  | .returned | .crashed => 0

variable {s s' : Ctx} {l : Label}

/-- What was called stays called. -/
theorem called_stays (h : Step s l s') (hcalled : s.deinit ≠ .uncalled) :
    s'.deinit ≠ .uncalled := by
  cases h with
  | initialise | initialiseFails | loadFails | lock | test | condWait | wake | relock | unlock =>
      exact hcalled
  | call | setQuit | signal | waitThread | joined | destroy | destroyCrashes => exact nofun

/-- A thread that has returned takes no more steps. -/
theorem over_stays (h : Step s l s') (hover : s.worker.Over) : s'.worker = s.worker := by
  cases h with
  | initialise | initialiseFails | loadFails | lock | test | condWait | wake | relock | unlock =>
      exact hover.elim
  | @signal w => cases w <;> first | rfl | exact hover.elim
  | call | setQuit | waitThread | joined | destroy | destroyCrashes => rfl

/-- A step of `cec_sdl_deinit` brings it nearer to its end. -/
theorem deinit_ahead_lt (hl : l.OfDeinit) (h : Step s l s') :
    s'.deinit.ahead < s.deinit.ahead := by
  cases h <;> first | exact hl.elim | exact Nat.lt_succ_self _

/-- The other steps leave it where it is. -/
theorem deinit_eq (hcalled : s.deinit ≠ .uncalled) (hl : ¬l.OfDeinit) (h : Step s l s') :
    s'.deinit = s.deinit := by
  cases h <;> first | rfl | exact absurd rfl hcalled | exact absurd trivial hl

/-- The worker is not in its loop yet. -/
def Worker.Early (w : Worker) : Prop := w = .initialise ∨ w = .lock

/-- What the worker does before its loop. -/
theorem early_next (hearly : s.worker.Early) (hl : l.OfWorker) (h : Step s l s') :
    (s'.worker.waiter ≠ .apart ∨ s'.worker.Over) ∨
      s.worker = .initialise ∧ s'.worker = .lock := by
  cases h with
  | initialise => exact .inr ⟨rfl, rfl⟩
  | initialiseFails | loadFails => exact .inl (.inr trivial)
  | lock => exact .inl (.inl nofun)
  | test | condWait | relock | unlock => exact hearly.elim nofun nofun
  | wake | call | setQuit | signal | waitThread | joined | destroy | destroyCrashes =>
      exact hl.elim

/-- The others do not hold it up. -/
theorem early_stays (hearly : s.worker.Early) (hl : ¬l.OfWorker) (h : Step s l s') :
    s'.worker = s.worker := by
  cases h with
  | initialise | initialiseFails | loadFails | lock | test | condWait | relock | unlock =>
      exact absurd trivial hl
  | wake => exact hearly.elim nofun nofun
  | @signal w => rcases hearly with h | h <;> obtain rfl : w = _ := h <;> rfl
  | call | setQuit | waitThread | joined | destroy | destroyCrashes => rfl

section Runs

variable {ρ : system.Run Ctx.initial} {i : ℕ}

/-- `cec_sdl_deinit` goes on where it can, until `Q`. -/
theorem eventually_deinit (hdeinit : ρ.Fair Ctx.DeinitRuns Label.OfDeinit) {Q : ℕ → Prop}
    (hcalled : (ρ.state i).deinit ≠ .uncalled)
    (hruns : ∀ j, i ≤ j → (ρ.state j).deinit ≠ .uncalled → Q j ∨ (ρ.state j).DeinitRuns) :
    Eventually i Q := by
  refine eventually_of_rank (P := fun j => (ρ.state j).deinit ≠ .uncalled)
    (fun j => (ρ.state j).deinit.ahead) hcalled fun j hij hcalled => ?_
  rcases hruns j hij hcalled with hQ | hruns
  · exact .now (.inl hQ)
  · have htakes := hdeinit.takes (P := fun s => s.deinit = (ρ.state j).deinit ∧ s.DeinitRuns)
      ⟨rfl, hruns⟩ (fun _ _ hk => hk.2) fun k _ l hl hk hstep => by
        obtain ⟨hsame, hcalled, hgoes, hover⟩ := hk
        have heq := deinit_eq hcalled hl hstep
        refine ⟨heq.trans hsame, heq ▸ hcalled, heq ▸ hgoes, fun hwaits => ?_⟩
        have hover := hover (heq ▸ hwaits)
        exact over_stays hstep hover ▸ hover
    refine htakes.bind fun k _ hk => ?_
    obtain ⟨l, hl, hstep⟩ := hk.2.step
    exact ⟨k + 1, Nat.le_succ k, .inr ⟨called_stays hstep hk.1.2.1,
      hk.1.1 ▸ deinit_ahead_lt hl hstep⟩⟩

/-- The thread is waited for. -/
theorem eventually_waitThread (hdeinit : ρ.Fair Ctx.DeinitRuns Label.OfDeinit)
    (hcalled : (ρ.state i).deinit ≠ .uncalled) :
    Eventually i fun j => (ρ.state j).deinit.setter = .done := by
  refine eventually_deinit hdeinit hcalled fun j _ hcalled => ?_
  cases hat : (ρ.state j).deinit with
  | uncalled => exact absurd hat hcalled
  | waitThread | destroy | returned | crashed => exact .inl rfl
  | locked | quit | signalled =>
      refine .inr ⟨hcalled, ⟨?_, ?_⟩, ?_⟩ <;> rw [hat] <;> exact nofun

/-- A worker that is over stays as it is. -/
theorem over_persists {k : ℕ} (hover : (ρ.state i).worker.Over) (hik : i ≤ k) :
    (ρ.state k).worker = (ρ.state i).worker :=
  ρ.preserves (P := fun s => s.worker = (ρ.state i).worker) rfl
    (fun _ _ _ hs hstep => (over_stays hstep (hs ▸ hover)).trans hs) hik

/-- After the thread has returned, so does `cec_sdl_deinit`, or it crashes. -/
theorem eventually_returned (hdeinit : ρ.Fair Ctx.DeinitRuns Label.OfDeinit)
    (hcalled : (ρ.state i).deinit ≠ .uncalled) (hover : (ρ.state i).worker.Over) :
    Eventually i fun j => (ρ.state j).deinit = .returned ∨ (ρ.state j).deinit = .crashed := by
  refine eventually_deinit hdeinit hcalled fun j hij hcalled => ?_
  by_cases hdone : (ρ.state j).deinit = .returned ∨ (ρ.state j).deinit = .crashed
  · exact .inl hdone
  · exact .inr ⟨hcalled, not_or.1 hdone, fun _ => over_persists hover hij ▸ hover⟩

/-- The worker gets to its loop, or it fails. -/
theorem eventually_begun (hworker : ρ.Fair Ctx.WorkerRuns Label.OfWorker) :
    Eventually 0 fun j => (ρ.state j).worker.waiter ≠ .apart ∨ (ρ.state j).worker.Over := by
  have hstart : (ρ.state 0).worker.Early := by
    rw [ρ.start]
    exact .inl rfl
  refine eventually_of_rank (P := fun j => (ρ.state j).worker.Early)
    (fun j => if (ρ.state j).worker = .initialise then 1 else 0) hstart fun j _ hj => ?_
  have hruns : ∀ s : Ctx, s.worker.Early → s.WorkerRuns := by
    rintro ⟨w, d, q⟩ (h | h) <;> obtain rfl : w = _ := h <;>
      exact ⟨nofun, id⟩
  have htakes := hworker.takes (P := fun s => s.worker = (ρ.state j).worker) rfl
    (fun _ _ hk => hruns _ (hk ▸ hj)) fun k _ l hl hk hstep =>
      (early_stays (hk ▸ hj) hl hstep).trans hk
  refine htakes.bind fun k _ hk => ?_
  obtain ⟨l, hl, hstep⟩ := hk.2.step
  refine ⟨k + 1, Nat.le_succ k, ?_⟩
  rcases early_next (hk.1 ▸ hj) hl hstep with hbegun | ⟨hfrom, hto⟩
  · exact .inl hbegun
  · refine .inr ⟨.inr hto, ?_⟩
    rw [← hk.1, if_pos hfrom, hto]
    exact Nat.zero_lt_one

/-- The run as one of the monitor. -/
def monitorRun (ρ : system.Run Ctx.initial) :
    (FlagMonitor.monitor False).Run Ctx.initial.monitor :=
  ρ.map (f := Ctx.monitor) (g := Label.seen) fun i _ hstep =>
    step_seen (quit_of_reachable (ρ.reachable rfl i)) hstep

theorem monitorRun_fair (hworker : ρ.Fair Ctx.WorkerRuns Label.OfWorker) :
    (monitorRun ρ).Fair (FlagMonitor.State.Runs False) FlagMonitor.Label.Waits := by
  refine hworker.map (fun s hs => ?_) fun s l s' hl hstep => ?_
  · obtain ⟨w, d, q⟩ := s
    cases w with
    | initialise | lock | waiting | ended | failed | unloaded =>
        exact absurd hs (by simp [Ctx.monitor, Worker.waiter, FlagMonitor.State.Runs])
    | test | condWait | woken | unlock => exact ⟨nofun, id⟩
  · cases hstep with
    | initialise | initialiseFails | loadFails =>
        exact .inr (by simp [Ctx.monitor, Worker.waiter, FlagMonitor.State.Runs])
    | lock | test | condWait | relock | unlock => exact .inl ⟨_, rfl, trivial⟩
    | wake | call | setQuit | signal | waitThread | joined | destroy | destroyCrashes =>
        exact hl.elim

theorem monitorRun_wake {j : ℕ} :
    (monitorRun ρ).label j = some .wake ↔ ρ.label j = some .wake :=
  Run.map_label (f := Ctx.monitor) (g := Label.seen) rfl fun m hm => by
    cases m <;> first | rfl | cases hm

theorem monitorRun_signal {j : ℕ} :
    (monitorRun ρ).label j = some .signal ↔ ρ.label j = some .signal :=
  Run.map_label (f := Ctx.monitor) (g := Label.seen) rfl fun m hm => by
    cases m <;> first | rfl | cases hm

/-- **When `cec_sdl_deinit` returns.**  It does so exactly if the library was
loaded, and its signal does not come between the test of `quit` and the wait.
What it destroys is not in use. -/
theorem cec_sdl_deinit_returns_iff (ρ : system.Run Ctx.initial)
    (hworker : ρ.Fair Ctx.WorkerRuns Label.OfWorker)
    (hdeinit : ρ.Fair Ctx.DeinitRuns Label.OfDeinit)
    (hcalled : Eventually 0 fun j => (ρ.state j).deinit ≠ .uncalled)
    (hwake : ∀ j, ρ.label j ≠ some .wake) :
    (∀ j, (ρ.state j).deinit.Destroys → (ρ.state j).worker.Over) ∧
      ((Eventually 0 fun j => (ρ.state j).deinit = .returned) ↔
        (∀ j, (ρ.state j).worker ≠ .unloaded) ∧
          ∀ j, ρ.label j = some .signal → (ρ.state j).worker ≠ .condWait) := by
  have hcloses : ∀ j, (ρ.state j).Closes := fun j => closes_of_reachable (ρ.reachable rfl j)
  have hwake' : ∀ j, (monitorRun ρ).label j ≠ some .wake := fun j =>
    mt monitorRun_wake.1 (hwake j)
  refine ⟨fun j => (hcloses j).ended, ?_, fun ⟨hloaded, hgap⟩ => ?_⟩
  · rintro ⟨j, -, hreturned⟩
    have hover : (ρ.state j).worker.Over := (hcloses j).ended (hreturned ▸ trivial)
    refine ⟨fun k hunloaded => ?_, fun k hsignal hgap => ?_⟩
    · have hstays : (ρ.state (max j k)).worker = .unloaded :=
        (over_persists (hunloaded ▸ trivial) (Nat.le_max_right j k)).trans hunloaded
      rw [over_persists hover (Nat.le_max_left j k)] at hstays
      exact (hcloses j).loaded hreturned hstays
    · have hnext := (monitorRun ρ).next k
      rw [monitorRun_signal.2 hsignal] at hnext
      have hat : ((monitorRun ρ).state k).waiter = .gap := waiter_eq_gap.2 hgap
      rcases FlagMonitor.signal_cases hnext with ⟨hne, -⟩ | ⟨-, hmissed⟩
      · exact hne hat
      · -- The worker would wait for ever.
        have hwaits := (FlagMonitor.missed_forever hwake' hmissed (Nat.le_max_right j (k + 1))).2
        have hwaits' : (ρ.state (max j (k + 1))).worker.waiter = .waiting ∨
            (ρ.state (max j (k + 1))).worker.waiter = .gap := hwaits
        rw [over_persists hover (Nat.le_max_left j (k + 1))] at hwaits'
        exact waiter_of_over hover hwaits'
  · obtain ⟨m, -, hcalled⟩ := hcalled
    suffices hends : Eventually 0 fun j => (ρ.state j).worker.Over by
      obtain ⟨n, -, hn⟩ := hends
      have hcalled' : (ρ.state (max m n)).deinit ≠ .uncalled :=
        ρ.preserves (P := fun s => s.deinit ≠ .uncalled) hcalled
          (fun _ _ _ hs hstep => called_stays hstep hs) (Nat.le_max_left m n)
      have hover := over_persists hn (Nat.le_max_right m n) ▸ hn
      refine (eventually_returned hdeinit hcalled' hover).imp fun j h => ⟨Nat.zero_le _, ?_⟩
      exact h.2.resolve_right fun hcrashed => hloaded j ((hcloses j).unloaded hcrashed)
    obtain ⟨n, -, hbegun | hover⟩ := eventually_begun hworker
    · have hdone : Eventually 0 fun j => ((monitorRun ρ).state j).setter = .done :=
        (eventually_waitThread hdeinit hcalled).imp fun _ h => ⟨Nat.zero_le _, h.2⟩
      obtain ⟨j, -, hpast⟩ := (FlagMonitor.past_iff rfl (monitorRun_fair hworker) hwake' hdone
        ⟨n, Nat.zero_le n, hbegun⟩).2 fun j hsignal =>
          mt waiter_eq_gap.1 (hgap j (monitorRun_signal.1 hsignal))
      have hended : (ρ.state j).worker = .ended := waiter_eq_past.1 hpast
      exact ⟨j, Nat.zero_le j, show (ρ.state j).worker.Over from hended ▸ trivial⟩
    · exact ⟨n, Nat.zero_le n, hover⟩

end Runs

/-- A step before a run. -/
def Step.before {s s' : Ctx} {l : Label} (h : Step s l s') (ρ : system.Run s') : system.Run s :=
  ρ.cons h

/-- The signal comes between the test and the wait. -/
def lostRun : system.Run Ctx.initial :=
  Step.initialise.before <| Step.lock.before <| Step.test.before <| Step.call.before <|
  Step.setQuit.before <| Step.signal.before <| Step.waitThread.before <| Step.condWait.before <|
  Run.idle system _

theorem cec_sdl_deinit_returns_iff_lost :
    ¬Eventually 0 fun j => (lostRun.state j).deinit = .returned := by
  have hworker : lostRun.Fair Ctx.WorkerRuns Label.OfWorker := fun i =>
    ⟨i + 8, Nat.le_add_right i 8, .inr fun h => h.1 rfl⟩
  have hdeinit : lostRun.Fair Ctx.DeinitRuns Label.OfDeinit := fun i =>
    ⟨i + 8, Nat.le_add_right i 8, .inr fun h => h.2.2 rfl⟩
  have hwake : ∀ j, lostRun.label j ≠ some .wake
    | 0 | 1 | 2 | 3 | 4 | 5 | 6 | 7 | _ + 8 => nofun
  have hiff := (cec_sdl_deinit_returns_iff lostRun hworker hdeinit ⟨4, Nat.zero_le 4, nofun⟩
    hwake).2
  exact fun hreturns => (hiff.1 hreturns).2 5 rfl rfl

end CommonsC.CecSdl
