import CommonsC.Base.Liveness

/-!
# CommonsC.Base.FlagMonitor

One thread waits for a flag, and another one raises it.

The waiter runs `while (!flag) wait(cond, mutex);` under its mutex, and the setter
runs `flag = true; signal(cond);`.  With `locks` the setter holds the mutex of the
waiter meanwhile.  Without it there is a gap: a signal that is sent between the
test of the flag and the wait is lost, and the waiter waits for ever.

* `setter_done` — with the lock, a waiter that is past the loop comes after the
  setter, which has released the mutex;
* `signal_not_in_gap` — with the lock, no signal falls into the gap;
* `past_iff` — a waiter gets past the loop exactly if no signal falls into the
  gap.
-/

namespace FlagMonitor

open TransitionSystem

/-- Where the waiter is: before the loop, at the test, behind a test that found
the flag down, waiting, woken, behind the loop with the mutex, and without it. -/
inductive Waiter
  | apart
  | test
  | gap
  | waiting
  | woken
  | leaving
  | past
  deriving DecidableEq

/-- Where the setter is: before its section, in it, with the flag raised, with the
signal sent, and behind its section. -/
inductive Setter
  | apart
  | inside
  | raised
  | signalled
  | done
  deriving DecidableEq

/-- The waiter has the mutex. -/
def Waiter.holds : Waiter → Bool
  | .test | .gap | .leaving => true
  | _ => false

/-- The setter is in its section. -/
def Setter.holds : Setter → Bool
  | .inside | .raised | .signalled => true
  | _ => false

/-- The flag is up. -/
def Setter.flag : Setter → Bool
  | .apart | .inside => false
  | _ => true

/-- The signal was sent. -/
def Setter.sent : Setter → Bool
  | .signalled | .done => true
  | _ => false

/-- What a signal does: it wakes the waiter if that waits. -/
def Waiter.signal : Waiter → Waiter
  | .waiting => .woken
  | w => w

theorem signal_ne_waiting (w : Waiter) : w.signal ≠ .waiting := by
  cases w <;> decide

theorem signal_eq_gap {w : Waiter} : w.signal = .gap ↔ w = .gap := by
  cases w <;> decide

theorem signal_eq_apart {w : Waiter} : w.signal = .apart ↔ w = .apart := by
  cases w <;> decide

/-- The two threads. -/
structure State where
  waiter : Waiter
  setter : Setter
  deriving DecidableEq

/-- The steps of the waiter, wake-ups without a signal, and the steps of the
setter. -/
inductive Label
  | acquire
  | look
  | block
  | leave
  | wake
  | enter
  | raise
  | signal
  | exit

/-- A step of the waiter. -/
def Label.Waits : Label → Prop
  | .acquire | .look | .block | .leave => True
  | _ => False

/-- What the steps do. -/
inductive Step (locks : Prop) : State → Label → State → Prop
  | acquire {w : Waiter} {x : Setter} :
      w = .apart ∨ w = .woken → ¬(locks ∧ x.holds) → Step locks ⟨w, x⟩ .acquire ⟨.test, x⟩
  | look {x : Setter} :
      Step locks ⟨.test, x⟩ .look ⟨if x.flag then .leaving else .gap, x⟩
  | block {x : Setter} : Step locks ⟨.gap, x⟩ .block ⟨.waiting, x⟩
  | leave {x : Setter} : Step locks ⟨.leaving, x⟩ .leave ⟨.past, x⟩
  | wake {x : Setter} : Step locks ⟨.waiting, x⟩ .wake ⟨.woken, x⟩
  | enter {w : Waiter} : ¬(locks ∧ w.holds) → Step locks ⟨w, .apart⟩ .enter ⟨w, .inside⟩
  | raise {w : Waiter} : Step locks ⟨w, .inside⟩ .raise ⟨w, .raised⟩
  | signal {w : Waiter} : Step locks ⟨w, .raised⟩ .signal ⟨w.signal, .signalled⟩
  | exit {w : Waiter} : Step locks ⟨w, .signalled⟩ .exit ⟨w, .done⟩

/-- A waiter and a setter that have not begun. -/
def monitor (locks : Prop) : TransitionSystem State Label where
  init s := s = ⟨.apart, .apart⟩
  step := Step locks

/-! ## With the lock -/

/-- The mutex is held once, the waiter is past the loop only behind the setter, and
does not wait after the signal. -/
structure Guarded (s : State) : Prop where
  exclusive : s.waiter.holds = true → s.setter.holds = false
  after : s.waiter = .leaving ∨ s.waiter = .past → s.setter = .done
  heard : s.setter.sent = true → s.waiter ≠ .waiting ∧ s.waiter ≠ .gap

theorem Guarded.step {s s' : State} {l : Label} (h : Guarded s) (hstep : Step True s l s') :
    Guarded s' := by
  obtain ⟨hexclusive, hafter, hheard⟩ := h
  cases hstep with
  | @acquire w x hw hfree =>
      have hx : x.holds = false := by simpa using hfree
      exact ⟨fun _ => hx, nofun, fun _ => ⟨nofun, nofun⟩⟩
  | @look x =>
      -- The setter has not begun, or it has ended.
      cases x with
      | apart => exact ⟨fun _ => rfl, nofun, nofun⟩
      | inside | raised | signalled => cases hexclusive rfl
      | done => exact ⟨fun _ => rfl, fun _ => rfl, fun _ => ⟨nofun, nofun⟩⟩
  | block => exact ⟨nofun, nofun, fun hsent => absurd rfl (hheard hsent).2⟩
  | leave => exact ⟨nofun, fun _ => hafter (.inl rfl), fun _ => ⟨nofun, nofun⟩⟩
  | wake => exact ⟨nofun, nofun, fun _ => ⟨nofun, nofun⟩⟩
  | @enter w hfree =>
      have hw : w.holds = false := by simpa using hfree
      refine ⟨fun h => absurd (hw.symm.trans h) nofun, fun h => ?_, nofun⟩
      exact absurd (hafter h) nofun
  | raise => exact ⟨hexclusive, fun h => absurd (hafter h) nofun, nofun⟩
  | @signal w =>
      cases w with
      | test | gap | leaving => cases hexclusive rfl
      | past => exact absurd (hafter (.inr rfl)) nofun
      | apart | waiting | woken => exact ⟨nofun, nofun, fun _ => ⟨nofun, nofun⟩⟩
  | exit => exact ⟨fun _ => rfl, fun _ => rfl, fun _ => hheard rfl⟩

theorem guarded_of_reachable {s : State} (hs : (monitor True).Reachable s) : Guarded s := by
  refine hs.invariant (fun s hs => ?_) fun _ _ _ _ h hstep => h.step hstep
  obtain rfl : s = ⟨.apart, .apart⟩ := hs
  exact ⟨fun _ => rfl, nofun, nofun⟩

/-- With the lock, a waiter that is past the loop comes after the setter. -/
theorem setter_done {s : State} (hs : (monitor True).Reachable s)
    (hw : s.waiter = .leaving ∨ s.waiter = .past) : s.setter = .done :=
  (guarded_of_reachable hs).after hw

/-- With the lock, no signal falls into the gap. -/
theorem signal_not_in_gap {s s' : State} (hs : (monitor True).Reachable s)
    (hstep : Step True s .signal s') : s.waiter ≠ .gap := by
  intro hgap
  have hexclusive := (guarded_of_reachable hs).exclusive
  rw [hgap] at hexclusive
  cases hstep
  cases hexclusive rfl

/-! ## After the signal -/

/-- The signal was sent, and the waiter does not wait for it. -/
def Heard (s : State) : Prop :=
  s.setter.sent = true ∧ s.waiter ≠ .waiting ∧ s.waiter ≠ .gap

/-- The signal was sent, and the waiter waits for it. -/
def Missed (s : State) : Prop :=
  s.setter.sent = true ∧ (s.waiter = .waiting ∨ s.waiter = .gap)

variable {locks : Prop} {s s' : State} {l : Label}

/-- What a signal leaves. -/
theorem signal_cases (h : Step locks s .signal s') :
    (s.waiter ≠ .gap ∧ Heard s') ∨ (s.waiter = .gap ∧ Missed s') := by
  cases h with
  | @signal w =>
      by_cases hgap : w = .gap
      · subst hgap
        exact .inr ⟨rfl, rfl, .inr rfl⟩
      · exact .inl ⟨hgap, rfl, signal_ne_waiting w, mt signal_eq_gap.1 hgap⟩

theorem Heard.step (h : Heard s) (hstep : Step locks s l s') : Heard s' := by
  obtain ⟨hsent, hwaiting, hgap⟩ := h
  cases hstep with
  | acquire => exact ⟨hsent, nofun, nofun⟩
  | @look x =>
      have hflag : x.flag = true := by cases x <;> first | rfl | cases hsent
      rw [hflag]
      exact ⟨hsent, nofun, nofun⟩
  | block => exact absurd rfl hgap
  | leave => exact ⟨hsent, nofun, nofun⟩
  | wake => exact absurd rfl hwaiting
  | enter | raise | signal => cases hsent
  | exit => exact ⟨rfl, hwaiting, hgap⟩

theorem Missed.step (h : Missed s) (hl : l ≠ .wake) (hstep : Step locks s l s') : Missed s' := by
  obtain ⟨hsent, hw⟩ := h
  cases hstep with
  | acquire hother =>
      rcases hother with rfl | rfl <;> exact absurd hw nofun
  | look | leave => exact absurd hw nofun
  | block => exact ⟨hsent, .inl rfl⟩
  | wake => exact absurd rfl hl
  | enter | raise | signal => cases hsent
  | exit => exact ⟨rfl, hw⟩

/-! ## Runs -/

section Runs

variable {s₀ : State} {ρ : (monitor locks).Run s₀} {i : ℕ}

/-- The waiter has a step to make: it need not wait for the mutex or for a
signal. -/
def State.Runs (locks : Prop) (s : State) : Prop :=
  (s.waiter = .test ∨ s.waiter = .gap ∨ s.waiter = .leaving) ∨
    (s.waiter = .woken ∧ ¬(locks ∧ s.setter.holds = true))

/-- How far the waiter is from the end, with the flag up. -/
def Waiter.ahead : Waiter → ℕ
  | .woken => 3
  | .test => 2
  | .leaving => 1
  | _ => 0

/-- Behind the setter, what happens brings the waiter nearer to the end. -/
theorem ahead_lt (hheard : Heard s) (hdone : s.setter = .done) (hbegun : s.waiter ≠ .apart)
    (hstep : Step locks s l s') :
    l.Waits ∧ s'.setter = .done ∧ s'.waiter ≠ .apart ∧ s'.waiter.ahead < s.waiter.ahead := by
  obtain ⟨-, hwaiting, hgap⟩ := hheard
  cases hstep with
  | acquire hw =>
      rcases hw with rfl | rfl
      · exact absurd rfl hbegun
      · exact ⟨trivial, hdone, nofun, Nat.lt_succ_self 2⟩
  | @look x =>
      obtain rfl : x = .done := hdone
      exact ⟨trivial, rfl, nofun, Nat.lt_succ_self 1⟩
  | block => exact absurd rfl hgap
  | leave => exact ⟨trivial, hdone, nofun, Nat.zero_lt_one⟩
  | wake => exact absurd rfl hwaiting
  | enter | raise | signal | exit => cases hdone

/-- A waiter that is not at the end has a step to make. -/
theorem runs_of_heard (hheard : Heard s) (hdone : s.setter = .done) (hbegun : s.waiter ≠ .apart)
    (hpast : s.waiter ≠ .past) : s.Runs locks := by
  obtain ⟨-, hwaiting, hgap⟩ := hheard
  have hfree : ¬(locks ∧ s.setter.holds = true) := by
    rw [hdone]
    exact fun h => nomatch h.2
  cases hw : s.waiter with
  | apart => exact absurd hw hbegun
  | test => exact .inl (.inl hw)
  | gap => exact absurd hw hgap
  | waiting => exact absurd hw hwaiting
  | woken => exact .inr ⟨hw, hfree⟩
  | leaving => exact .inl (.inr (.inr hw))
  | past => exact absurd hw hpast

/-- A step that is not the signal does not make it sent. -/
theorem sent_eq (hl : l ≠ .signal) (hstep : Step locks s l s') :
    s'.setter.sent = s.setter.sent := by
  cases hstep <;> first | rfl | exact absurd rfl hl

theorem past_stays (hpast : s.waiter = .past) (hstep : Step locks s l s') : s'.waiter = .past := by
  cases hstep with
  | acquire hw => rcases hw with rfl | rfl <;> cases hpast
  | look | block | leave | wake => cases hpast
  | enter | raise | exit => exact hpast
  | @signal w =>
      obtain rfl : w = .past := hpast
      rfl

/-- A waiter that has begun stays begun. -/
theorem begun_stays (h : s.waiter ≠ .apart) (hstep : Step locks s l s') : s'.waiter ≠ .apart := by
  cases hstep with
  | @look x => cases x <;> exact nofun
  | acquire | block | leave | wake => exact nofun
  | enter | raise | exit => exact h
  | signal => exact mt signal_eq_apart.1 h

/-- A setter that has ended has ended. -/
theorem done_stays (h : s.setter = .done) (hstep : Step locks s l s') : s'.setter = .done := by
  cases hstep with
  | enter | raise | signal | exit => cases h
  | acquire | look | block | leave | wake => exact h

/-- What is past the loop stays there. -/
theorem past_forever (h : (ρ.state i).waiter = .past) {j : ℕ} (hij : i ≤ j) :
    (ρ.state j).waiter = .past :=
  ρ.preserves (P := fun s => s.waiter = .past) h (fun _ _ _ hs hstep => past_stays hs hstep) hij

/-- A waiter that misses the signal waits for ever, unless it wakes by itself. -/
theorem missed_forever (hwake : ∀ j, ρ.label j ≠ some .wake) (h : Missed (ρ.state i)) {j : ℕ}
    (hij : i ≤ j) : Missed (ρ.state j) := by
  induction j, hij using Nat.le_induction with
  | base => exact h
  | succ j _ ih =>
      rcases ρ.next_cases j with ⟨-, hsame⟩ | ⟨l, hl, hstep⟩
      · rwa [hsame]
      · exact ih.step (fun heq => hwake j (heq ▸ hl)) hstep

/-- If no signal falls into the gap, it is heard. -/
theorem heard_of_sent (hinit : (monitor locks).init s₀)
    (hgap : ∀ j, ρ.label j = some .signal → (ρ.state j).waiter ≠ .gap)
    (hsent : (ρ.state i).setter.sent = true) : Heard (ρ.state i) := by
  induction i with
  | zero =>
      rw [ρ.start, show s₀ = ⟨.apart, .apart⟩ from hinit] at hsent
      cases hsent
  | succ i ih =>
      rcases ρ.next_cases i with ⟨-, hsame⟩ | ⟨l, hl, hstep⟩
      · rw [hsame] at hsent ⊢
        exact ih hsent
      · by_cases hsignal : l = .signal
        · subst hsignal
          rcases signal_cases hstep with ⟨-, hheard⟩ | ⟨hat, -⟩
          · exact hheard
          · exact absurd hat (hgap i hl)
        · exact (ih ((sent_eq hsignal hstep).symm.trans hsent)).step hstep

/-- A waiter that has begun gets past the loop after a signal that it heard. -/
theorem eventually_past (hfair : ρ.Fair (State.Runs locks) Label.Waits)
    (hheard : Heard (ρ.state i)) (hdone : (ρ.state i).setter = .done)
    (hbegun : (ρ.state i).waiter ≠ .apart) : Eventually i fun j => (ρ.state j).waiter = .past := by
  refine eventually_of_rank (P := fun j => Heard (ρ.state j) ∧ (ρ.state j).setter = .done ∧
    (ρ.state j).waiter ≠ .apart) (fun j => (ρ.state j).waiter.ahead) ⟨hheard, hdone, hbegun⟩
    fun j _ hj => ?_
  obtain ⟨hheard, hdone, hbegun⟩ := hj
  by_cases hpast : (ρ.state j).waiter = .past
  · exact .now (.inl hpast)
  · have htakes := hfair.takes (P := fun s => s = ρ.state j) rfl
      (fun _ _ hk => hk ▸ runs_of_heard hheard hdone hbegun hpast)
      fun k _ l hl hk hstep => absurd (ahead_lt hheard hdone hbegun (hk ▸ hstep)).1 hl
    refine htakes.bind fun k hjk hk => ?_
    obtain ⟨l, -, hstep⟩ := hk.2.step
    rw [hk.1] at hstep
    obtain ⟨-, hdone', hbegun', hlt⟩ := ahead_lt hheard hdone hbegun hstep
    exact ⟨k + 1, Nat.le_succ k, .inr ⟨⟨hheard.step hstep, hdone', hbegun'⟩, hlt⟩⟩

/-- **Which signals are lost.**  The waiter gets past the loop exactly if no signal
falls into the gap, when it has begun and the setter has ended, and if it does not
wake by itself. -/
theorem past_iff (hinit : (monitor locks).init s₀)
    (hfair : ρ.Fair (State.Runs locks) Label.Waits) (hwake : ∀ j, ρ.label j ≠ some .wake)
    (hdone : Eventually 0 fun j => (ρ.state j).setter = .done)
    (hbegun : Eventually 0 fun j => (ρ.state j).waiter ≠ .apart) :
    (Eventually 0 fun j => (ρ.state j).waiter = .past) ↔
      ∀ j, ρ.label j = some .signal → (ρ.state j).waiter ≠ .gap := by
  constructor
  · rintro ⟨k, -, hpast⟩ j hsignal hgap
    have hstep : Step locks (ρ.state j) .signal (ρ.state (j + 1)) := by
      have hnext := ρ.next j
      rwa [hsignal] at hnext
    rcases signal_cases hstep with ⟨hne, -⟩ | ⟨-, hmissed⟩
    · exact hne hgap
    · have hlater := past_forever hpast (Nat.le_max_left k (j + 1))
      have hwaits := (missed_forever hwake hmissed (Nat.le_max_right k (j + 1))).2
      rw [hlater] at hwaits
      exact hwaits.elim nofun nofun
  · intro hgap
    obtain ⟨m, -, hdone⟩ := hdone
    obtain ⟨n, -, hbegun⟩ := hbegun
    have hdone' : (ρ.state (max m n)).setter = .done :=
      ρ.preserves (P := fun s => s.setter = .done) hdone
        (fun _ _ _ hs hstep => done_stays hs hstep) (Nat.le_max_left m n)
    have hbegun' : (ρ.state (max m n)).waiter ≠ .apart :=
      ρ.preserves (P := fun s => s.waiter ≠ .apart) hbegun
        (fun _ _ _ hs hstep => begun_stays hs hstep) (Nat.le_max_right m n)
    have hheard := heard_of_sent hinit hgap (show (ρ.state (max m n)).setter.sent = true by
      rw [hdone']
      rfl)
    obtain ⟨j, -, hj⟩ := eventually_past hfair hheard hdone' hbegun'
    exact ⟨j, Nat.zero_le j, hj⟩

end Runs

end FlagMonitor
