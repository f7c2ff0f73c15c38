import CommonsC.Base.FlagMonitor

/-!
# CommonsC.LunaSync.CallSync

A call that waits for its reply (`platform/webos/luna-sync/lunasynccall.c`).

`HLunaServiceCallSync` has its context on the stack: a mutex, a condition and
`finished`.  The callback, which another thread runs once if `HLunaServiceCall`
has succeeded, writes to it.  The two are a flag and its waiter with a common lock
(`CommonsC.Base.FlagMonitor`): when the context is destroyed the callback is done
with it, and no signal is lost.
-/

namespace CommonsC.LunaSync

open TransitionSystem

variable {α : Type*}

/-- Where `HLunaServiceCallSync` is. -/
inductive Main
  /-- Before `HLunaServiceCall`. -/
  | serviceCall
  /-- Before `pthread_mutex_lock`. -/
  | lock
  /-- At the test of `finished`. -/
  | test
  /-- Before `pthread_cond_wait`. -/
  | condWait
  | waiting
  | woken
  /-- Before `pthread_mutex_unlock`. -/
  | unlock
  /-- Before the mutex and the condition are destroyed, with the result. -/
  | destroy (result : Bool)
  | returned (result : Bool)
  deriving DecidableEq

/-- Where `callback` is, and the text of the reply. -/
inductive Callback (α : Type*)
  | uncalled
  /-- Before `pthread_mutex_lock`. -/
  | lock (reply : α)
  /-- Before `finished` is set. -/
  | finish (reply : α)
  /-- Before `output` is set. -/
  | output (reply : α)
  /-- Before `pthread_cond_signal`. -/
  | signal
  /-- Before `pthread_mutex_unlock`. -/
  | unlock
  | done

/-- The two threads, `finished`, what `output` points to if it was set, whether the
mutex and the condition exist, and the reply. -/
structure Call (α : Type*) where
  main : Main
  callback : Callback α
  finished : Bool
  output : Option α
  live : Bool
  reply : Option α

/-- The steps of `HLunaServiceCallSync`, wake-ups without a signal, the reply, and
the steps of the callback. -/
inductive Label (α : Type*)
  | serviceCall
  | lock
  | test
  | condWait
  | relock
  | unlock
  | destroy
  | wake
  | reply (message : α)
  | callbackLock
  | finish
  | output
  | signal
  | callbackUnlock

/-- The steps of `HLunaServiceCallSync`. -/
def Label.OfMain : Label α → Prop
  | .serviceCall | .lock | .test | .condWait | .relock | .unlock | .destroy => True
  | _ => False

/-- The steps of the callback. -/
def Label.OfCallback : Label α → Prop
  | .callbackLock | .finish | .output | .signal | .callbackUnlock => True
  | _ => False

/-- `HLunaServiceCall` has succeeded. -/
def Main.Sent : Main → Prop
  | .serviceCall | .destroy false | .returned false => False
  | _ => True

/-- `pthread_cond_signal`. -/
def Main.signal : Main → Main
  | .waiting => .woken
  | m => m

/-- The call as a waiter, which begins when it locks the mutex. -/
def Main.waiter : Main → FlagMonitor.Waiter
  | .serviceCall | .lock | .destroy false | .returned false => .apart
  | .test => .test
  | .condWait => .gap
  | .waiting => .waiting
  | .woken => .woken
  | .unlock => .leaving
  | .destroy true | .returned true => .past

/-- The callback as a setter. -/
def Callback.setter : Callback α → FlagMonitor.Setter
  | .uncalled | .lock _ => .apart
  | .finish _ => .inside
  | .output _ | .signal => .raised
  | .unlock => .signalled
  | .done => .done

variable (wanted : Bool)

/-- What the steps do.  `wanted` tells that `output` is not `NULL`.  Of
`HLunaServiceCall` it is assumed that it runs the callback once at most, and only
for a call that succeeded. -/
inductive Step : Call α → Label α → Call α → Prop
  | serviceCallFails {s : Call α} :
      s.main = .serviceCall → Step s .serviceCall { s with main := .destroy false }
  | serviceCall {s : Call α} :
      s.main = .serviceCall → Step s .serviceCall { s with main := .lock }
  | lock {s : Call α} :
      s.main = .lock → s.callback.setter.holds = false → Step s .lock { s with main := .test }
  | test {s : Call α} :
      s.main = .test → Step s .test { s with main := if s.finished then .unlock else .condWait }
  | condWait {s : Call α} : s.main = .condWait → Step s .condWait { s with main := .waiting }
  | wake {s : Call α} : s.main = .waiting → Step s .wake { s with main := .woken }
  | relock {s : Call α} :
      s.main = .woken → s.callback.setter.holds = false → Step s .relock { s with main := .test }
  | unlock {s : Call α} : s.main = .unlock → Step s .unlock { s with main := .destroy true }
  | destroy {s : Call α} {result : Bool} :
      s.main = .destroy result → Step s .destroy { s with main := .returned result, live := false }
  | reply {s : Call α} {message : α} :
      s.main.Sent → s.callback = .uncalled →
      Step s (.reply message) { s with callback := .lock message, reply := some message }
  | callbackLock {s : Call α} {message : α} :
      s.callback = .lock message → s.main.waiter.holds = false →
      Step s .callbackLock { s with callback := .finish message }
  | finish {s : Call α} {message : α} :
      s.callback = .finish message →
      Step s .finish { s with callback := .output message, finished := true }
  | output {s : Call α} {message : α} :
      s.callback = .output message →
      Step s .output
        { s with callback := .signal, output := if wanted then some message else s.output }
  | signal {s : Call α} :
      s.callback = .signal →
      Step s .signal { s with callback := .unlock, main := s.main.signal }
  | callbackUnlock {s : Call α} :
      s.callback = .unlock → Step s .callbackUnlock { s with callback := .done }

/-- The call at its beginning. -/
def Call.initial : Call α := ⟨.serviceCall, .uncalled, false, none, true, none⟩

/-- The call and its callback. -/
def system : TransitionSystem (Call α) (Label α) where
  init s := s = Call.initial
  step := Step wanted

/-! ## The monitor -/

/-- The steps of the monitor. -/
def Label.seen : Label α → Option FlagMonitor.Label
  | .lock | .relock => some .acquire
  | .test => some .look
  | .condWait => some .block
  | .unlock => some .leave
  | .wake => some .wake
  | .callbackLock => some .enter
  | .finish => some .raise
  | .signal => some .signal
  | .callbackUnlock => some .exit
  | .serviceCall | .destroy | .reply _ | .output => none

def Call.monitor (s : Call α) : FlagMonitor.State := ⟨s.main.waiter, s.callback.setter⟩

theorem waiter_signal (m : Main) : m.signal.waiter = m.waiter.signal := by
  rcases m with _ | _ | _ | _ | _ | _ | _ | (_ | _) | (_ | _) <;> rfl

theorem sent_signal {m : Main} (h : m.Sent) : m.signal.Sent := by
  cases m <;> exact h

variable {wanted} {s s' : Call α} {l : Label α}

/-- A step is one of the monitor with the lock. -/
theorem step_seen (hfinished : s.finished = s.callback.setter.flag) (h : Step wanted s l s') :
    l.seen.elim (s'.monitor = s.monitor)
      fun k => FlagMonitor.Step True s.monitor k s'.monitor := by
  obtain ⟨main, callback, finished, out, live, reply⟩ := s
  cases h with
  | serviceCallFails hmain | serviceCall hmain =>
      obtain rfl : main = .serviceCall := hmain
      rfl
  | lock hmain hfree =>
      obtain rfl : main = .lock := hmain
      exact .acquire (.inl rfl) fun h => absurd (hfree.symm.trans h.2) nofun
  | test hmain =>
      obtain rfl : main = .test := hmain
      obtain rfl : finished = callback.setter.flag := hfinished
      have hlook : (if callback.setter.flag then Main.unlock else .condWait).waiter =
          if callback.setter.flag then .leaving else .gap := by
        cases callback.setter.flag <;> rfl
      change FlagMonitor.Step True _ .look ⟨_, _⟩
      rw [hlook]
      exact .look
  | condWait hmain =>
      obtain rfl : main = .condWait := hmain
      exact .block
  | wake hmain =>
      obtain rfl : main = .waiting := hmain
      exact .wake
  | relock hmain hfree =>
      obtain rfl : main = .woken := hmain
      exact .acquire (.inr rfl) fun h => absurd (hfree.symm.trans h.2) nofun
  | unlock hmain =>
      obtain rfl : main = .unlock := hmain
      exact .leave
  | @destroy result hmain =>
      obtain rfl : main = .destroy result := hmain
      cases result <;> rfl
  | reply _ hcallback =>
      obtain rfl : callback = .uncalled := hcallback
      rfl
  | @callbackLock message hcallback hfree =>
      obtain rfl : callback = .lock message := hcallback
      exact .enter fun h => absurd (hfree.symm.trans h.2) nofun
  | @finish message hcallback =>
      obtain rfl : callback = .finish message := hcallback
      exact .raise
  | @output message hcallback =>
      obtain rfl : callback = .output message := hcallback
      rfl
  | signal hcallback =>
      obtain rfl : callback = .signal := hcallback
      change FlagMonitor.Step True _ .signal ⟨_, _⟩
      rw [waiter_signal]
      exact .signal
  | callbackUnlock hcallback =>
      obtain rfl : callback = .unlock := hcallback
      exact .exit

/-! ## The reply -/

/-- What the reply and `output` are when the callback is there. -/
def Callback.Accounts (wanted : Bool) (reply out : Option α) : Callback α → Prop
  | .uncalled => reply = none ∧ out = none
  | .lock message | .finish message | .output message => reply = some message ∧ out = none
  | .signal | .unlock | .done => ∃ message, reply = some message ∧
      out = if wanted then some message else none

/-- What the callback has done so far. -/
structure Replied (wanted : Bool) (s : Call α) : Prop where
  finished : s.finished = s.callback.setter.flag
  /-- The callback is run for a call that has succeeded. -/
  sent : s.callback = .uncalled ∨ s.main.Sent
  accounts : s.callback.Accounts wanted s.reply s.output
  live : s.live = true ∨ ∃ result, s.main = .returned result

theorem Replied.step (h : Replied wanted s) (hstep : Step wanted s l s') : Replied wanted s' := by
  obtain ⟨hfinished, hsent, haccounts, hlive⟩ := h
  obtain ⟨main, callback, finished, out, live, reply⟩ := s
  cases hstep with
  | serviceCallFails hmain =>
      obtain rfl : main = .serviceCall := hmain
      exact ⟨hfinished, .inl (hsent.resolve_right id), haccounts, .inl (hlive.resolve_right nofun)⟩
  | serviceCall hmain =>
      obtain rfl : main = .serviceCall := hmain
      exact ⟨hfinished, .inr trivial, haccounts, .inl (hlive.resolve_right nofun)⟩
  | lock hmain | condWait hmain | wake hmain | relock hmain | unlock hmain =>
      obtain rfl : main = _ := hmain
      exact ⟨hfinished, .inr trivial, haccounts, .inl (hlive.resolve_right nofun)⟩
  | test hmain =>
      obtain rfl : main = .test := hmain
      refine ⟨hfinished, .inr ?_, haccounts, .inl (hlive.resolve_right nofun)⟩
      cases finished <;> trivial
  | @destroy result hmain =>
      obtain rfl : main = .destroy result := hmain
      refine ⟨hfinished, hsent.imp_right fun h => ?_, haccounts, .inr ⟨result, rfl⟩⟩
      cases result with
      | false => exact h
      | true => trivial
  | reply hmain hcallback =>
      obtain rfl : callback = .uncalled := hcallback
      exact ⟨hfinished, .inr hmain, ⟨rfl, haccounts.2⟩, hlive⟩
  | @callbackLock message hcallback =>
      obtain rfl : callback = .lock message := hcallback
      exact ⟨hfinished, .inr (hsent.resolve_left nofun), haccounts, hlive⟩
  | @finish message hcallback =>
      obtain rfl : callback = .finish message := hcallback
      exact ⟨rfl, .inr (hsent.resolve_left nofun), haccounts, hlive⟩
  | @output message hcallback =>
      obtain rfl : callback = .output message := hcallback
      obtain ⟨hreply, rfl⟩ : reply = some message ∧ out = none := haccounts
      exact ⟨hfinished, .inr (hsent.resolve_left nofun), ⟨message, hreply, rfl⟩, hlive⟩
  | signal hcallback =>
      obtain rfl : callback = .signal := hcallback
      refine ⟨hfinished, .inr (sent_signal (hsent.resolve_left nofun)), haccounts, ?_⟩
      refine hlive.imp_right fun ⟨result, hmain⟩ => ⟨result, ?_⟩
      obtain rfl : main = .returned result := hmain
      rfl
  | callbackUnlock hcallback =>
      obtain rfl : callback = .unlock := hcallback
      exact ⟨hfinished, .inr (hsent.resolve_left nofun), haccounts, hlive⟩

theorem replied_of_reachable (hs : (system wanted).Reachable s) : Replied wanted s := by
  refine hs.invariant (fun s hs => ?_) fun _ _ _ _ h hstep => h.step hstep
  rw [show s = Call.initial from hs]
  exact ⟨rfl, .inl rfl, ⟨rfl, rfl⟩, .inl rfl⟩

/-- The states that are reached are those of the monitor. -/
theorem monitor_reachable (hs : (system wanted).Reachable s) :
    (FlagMonitor.monitor True).Reachable s.monitor := by
  induction hs with
  | init h =>
      rw [show _ = Call.initial from h]
      exact .init rfl
  | @step s s' l hs hstep ih =>
      have hseen := step_seen (replied_of_reachable hs).finished hstep
      cases hl : l.seen with
      | none =>
          rw [hl] at hseen
          rwa [show s'.monitor = s.monitor from hseen]
      | some k =>
          rw [hl] at hseen
          exact ih.step hseen

/-- **What is left when the context is destroyed.**  Nobody goes on to use it: the
callback has ended, and `output` was set to the reply if it is wanted, or there
will be no callback. -/
theorem HLunaServiceCallSync_safe (hs : (system wanted).Reachable s) (hlive : s.live = false) :
    (∀ l s', ¬Step wanted s l s') ∧
      ((s.main = .returned true ∧ ∃ message, s.reply = some message ∧
          s.output = if wanted then some message else none) ∨
        (s.main = .returned false ∧ s.reply = none ∧ s.output = none)) := by
  have hguard : s.main.waiter = .leaving ∨ s.main.waiter = .past → s.callback.setter = .done :=
    FlagMonitor.setter_done (monitor_reachable hs)
  obtain ⟨-, hsent, haccounts, hdestroyed⟩ := replied_of_reachable hs
  obtain ⟨result, hmain⟩ := hdestroyed.resolve_left (by simp [hlive])
  rw [hmain] at hguard hsent
  obtain ⟨main, callback, finished, out, live, reply⟩ := s
  obtain rfl : main = .returned result := hmain
  cases result with
  | true =>
      have hdone : callback = .done := by
        have hsetter : callback.setter = .done := hguard (.inr rfl)
        cases callback <;> first | rfl | cases hsetter
      subst hdone
      exact ⟨fun l s' hstep => (nomatch hstep), .inl ⟨rfl, haccounts⟩⟩
  | false =>
      obtain rfl : callback = .uncalled := hsent.resolve_right id
      refine ⟨fun l s' hstep => ?_, .inr ⟨rfl, haccounts⟩⟩
      cases hstep with
      | reply hsent => exact hsent
      | _ => contradiction

/-- A step before a run. -/
def Step.before (h : Step wanted s l s') (ρ : (system wanted).Run s') : (system wanted).Run s :=
  ρ.cons h

/-- The reply `7` comes while the caller waits. -/
def replyRun : (system true).Run (Call.initial : Call ℕ) :=
  (Step.serviceCall rfl).before <| (Step.lock rfl rfl).before <| (Step.test rfl).before <|
  (Step.condWait rfl).before <|
  (@Step.reply ℕ true ⟨.waiting, .uncalled, false, none, true, none⟩ 7 trivial rfl).before <|
  (Step.callbackLock rfl rfl).before <| (Step.finish rfl).before <| (Step.output rfl).before <|
  (Step.signal rfl).before <| (Step.callbackUnlock rfl).before <| (Step.relock rfl rfl).before <|
  (Step.test rfl).before <| (Step.unlock rfl).before <| (Step.destroy rfl).before <|
  Run.idle (system true) _

theorem HLunaServiceCallSync_safe_reply :
    (∀ l s', ¬Step true (replyRun.state 14) l s') ∧
      (((replyRun.state 14).main = .returned true ∧ ∃ message,
          (replyRun.state 14).reply = some message ∧
          (replyRun.state 14).output = if true then some message else none) ∨
        ((replyRun.state 14).main = .returned false ∧ (replyRun.state 14).reply = none ∧
          (replyRun.state 14).output = none)) :=
  HLunaServiceCallSync_safe (replyRun.reachable rfl 14) rfl

/-! ## Runs -/

/-- `HLunaServiceCallSync` has a step to make: it need not wait for the mutex or for a
signal. -/
def Call.MainRuns (s : Call α) : Prop :=
  s.main ≠ .waiting ∧ (∀ result, s.main ≠ .returned result) ∧
    (s.main = .lock ∨ s.main = .woken → s.callback.setter.holds = false)

/-- The callback has a step to make: it need not wait for the mutex. -/
def Call.CallbackRuns (s : Call α) : Prop :=
  s.callback ≠ .uncalled ∧ s.callback ≠ .done ∧
    ∀ message, s.callback = .lock message → s.main.waiter.holds = false

/-- A reply is due. -/
def Call.ReplyDue (s : Call α) : Prop := s.main.Sent ∧ s.callback = .uncalled

/-- A reply comes. -/
def Label.Replies : Label α → Prop
  | .reply _ => True
  | _ => False

/-- How far the callback is from its end. -/
def Callback.ahead : Callback α → ℕ
  | .uncalled => 6
  | .lock _ => 5
  | .finish _ => 4
  | .output _ => 3
  | .signal => 2
  | .unlock => 1
  | .done => 0

/-- How far the waiter is from giving the mutex back. -/
def Main.held : Main → ℕ
  | .test => 2
  | .condWait | .unlock => 1
  | _ => 0

/-- A step of the callback brings it nearer to its end. -/
theorem callback_ahead_lt (hl : l.OfCallback) (h : Step wanted s l s') :
    s'.callback.ahead < s.callback.ahead := by
  cases h with
  | callbackLock hat | finish hat | output hat | signal hat | callbackUnlock hat =>
      rw [hat]
      exact Nat.lt_succ_self _
  | _ => exact hl.elim

/-- The other steps leave it where it is. -/
theorem callback_eq (hcalled : s.callback ≠ .uncalled) (hl : ¬l.OfCallback)
    (h : Step wanted s l s') : s'.callback = s.callback := by
  cases h with
  | reply _ hat => exact absurd hat hcalled
  | callbackLock | finish | output | signal | callbackUnlock => exact absurd trivial hl
  | _ => rfl

/-- The others leave `HLunaServiceCallSync` where it is, unless it waits. -/
theorem main_eq (hwaiting : s.main ≠ .waiting) (hl : ¬l.OfMain) (h : Step wanted s l s') :
    s'.main = s.main := by
  cases h with
  | wake hat => exact absurd hat hwaiting
  | signal =>
      change s.main.signal = s.main
      cases hat : s.main <;> first | rfl | exact absurd hat hwaiting
  | reply | callbackLock | finish | output | callbackUnlock => rfl
  | _ => exact absurd trivial hl

/-- While the mutex is held, the callback waits for it. -/
theorem lock_stays {message : α} (hat : s.callback = .lock message)
    (hheld : s.main.waiter.holds = true) (h : Step wanted s l s') :
    s'.callback = .lock message := by
  cases h with
  | callbackLock _ hfree => exact absurd (hheld.symm.trans hfree) nofun
  | reply _ hcallback | finish hcallback | output hcallback | signal hcallback
  | callbackUnlock hcallback => exact absurd (hat.symm.trans hcallback) nofun
  | _ => exact hat

/-- A step of the one who holds the mutex brings it nearer to giving it back. -/
theorem main_held_lt (hheld : s.main.waiter.holds = true) (hl : l.OfMain) (h : Step wanted s l s') :
    s'.main.held < s.main.held := by
  cases h with
  | serviceCallFails hat | serviceCall hat | lock hat | relock hat =>
      rw [hat] at hheld
      cases hheld
  | @destroy result hat =>
      rw [hat] at hheld
      cases result <;> cases hheld
  | test hat =>
      change (if s.finished then Main.unlock else .condWait).held < s.main.held
      rw [hat]
      cases s.finished <;> exact Nat.lt_succ_self 1
  | condWait hat | unlock hat =>
      rw [hat]
      exact Nat.zero_lt_one
  | _ => exact hl.elim

/-- The one who holds the mutex has a step to make. -/
theorem mainRuns_of_holds (hheld : s.main.waiter.holds = true) : s.MainRuns := by
  obtain ⟨main, callback, finished, out, live, reply⟩ := s
  cases main with
  | test | condWait | unlock => exact ⟨nofun, nofun, fun h => h.elim nofun nofun⟩
  | destroy result | returned result => cases result <;> cases hheld
  | serviceCall | lock | waiting | woken => cases hheld

theorem done_stays (hdone : s.callback = .done) (h : Step wanted s l s') : s'.callback = .done := by
  cases h with
  | reply _ hat | callbackLock hat | finish hat | output hat | signal hat | callbackUnlock hat =>
      exact absurd (hdone.symm.trans hat) nofun
  | _ => exact hdone

/-- What `HLunaServiceCallSync` does next, when it does not wait. -/
theorem main_next (hl : l.OfMain) (h : Step wanted s l s') :
    (s.main = .serviceCall → s'.main = .lock ∨ s'.main = .destroy false) ∧
      (s.main = .lock → s'.main = .test) ∧
      ∀ result, s.main = .destroy result → s'.main = .returned result := by
  cases h with
  | serviceCallFails hat => exact ⟨fun _ => .inr rfl, by simp [hat], by simp [hat]⟩
  | serviceCall hat => exact ⟨fun _ => .inl rfl, by simp [hat], by simp [hat]⟩
  | lock hat => exact ⟨by simp [hat], fun _ => rfl, by simp [hat]⟩
  | @destroy result hat =>
      refine ⟨by simp [hat], by simp [hat], fun result' hat' => ?_⟩
      obtain rfl : result = result' := Main.destroy.inj (hat.symm.trans hat')
      rfl
  | test hat | condWait hat | relock hat | unlock hat =>
      exact ⟨by simp [hat], by simp [hat], by simp [hat]⟩
  | _ => exact hl.elim

theorem sent_stays (hsent : s.main.Sent) (h : Step wanted s l s') : s'.main.Sent := by
  cases h with
  | serviceCallFails hat =>
      rw [hat] at hsent
      exact hsent.elim
  | test =>
      change (if s.finished then Main.unlock else .condWait).Sent
      cases s.finished <;> trivial
  | @destroy result hat =>
      rw [hat] at hsent
      cases result with
      | false => exact hsent.elim
      | true => trivial
  | signal => exact sent_signal hsent
  | reply | callbackLock | finish | output | callbackUnlock => exact hsent
  | _ => trivial

theorem called_of_replies (hl : l.Replies) (h : Step wanted s l s') : s'.callback ≠ .uncalled := by
  cases h with
  | reply => exact nofun
  | _ => exact hl.elim

/-- A reply is due until it comes. -/
theorem reply_due_stays (hdue : s.ReplyDue) (hl : ¬l.Replies) (h : Step wanted s l s') :
    s'.ReplyDue := by
  refine ⟨sent_stays hdue.1 h, ?_⟩
  cases h with
  | reply => exact absurd trivial hl
  | callbackLock hat | finish hat | output hat | signal hat | callbackUnlock hat =>
      exact absurd (hdue.2.symm.trans hat) nofun
  | _ => exact hdue.2

theorem of_waiter_past {m : Main} (h : m.waiter = .past) :
    m = .destroy true ∨ m = .returned true := by
  rcases m with _ | _ | _ | _ | _ | _ | _ | (_ | _) | (_ | _) <;>
    first | exact .inl rfl | exact .inr rfl | cases h

theorem begun_of_sent {m : Main} (hsent : m.Sent) (hlock : m ≠ .lock) : m.waiter ≠ .apart := by
  rcases m with _ | _ | _ | _ | _ | _ | _ | (_ | _) | (_ | _) <;>
    first | exact absurd rfl hlock | exact hsent.elim | exact nofun

/-- A waiter that has a step to make is one that is not in its call. -/
theorem mainRuns_of_runs (h : FlagMonitor.State.Runs True s.monitor) : s.MainRuns := by
  obtain ⟨main, callback, finished, out, live, reply⟩ := s
  cases main with
  | test | condWait | unlock => exact ⟨nofun, nofun, fun h => h.elim nofun nofun⟩
  | woken =>
      have hfree : ¬(True ∧ callback.setter.holds = true) := (h.resolve_left (by nofun)).2
      exact ⟨nofun, nofun, fun _ => by simpa using hfree⟩
  | destroy result | returned result =>
      cases result <;> simp [Call.monitor, Main.waiter, FlagMonitor.State.Runs] at h
  | serviceCall | lock | waiting =>
      simp [Call.monitor, Main.waiter, FlagMonitor.State.Runs] at h

section Runs

variable {ρ : (system wanted).Run (Call.initial : Call α)} {i : ℕ}

/-- The mutex that the callback waits for is given back again and again. -/
theorem eventually_callbackRuns (hmain : ρ.Fair Call.MainRuns Label.OfMain) {message : α}
    (hat : (ρ.state i).callback = .lock message) :
    Eventually i fun j => (ρ.state j).CallbackRuns := by
  refine eventually_of_rank (P := fun j => (ρ.state j).callback = .lock message)
    (fun j => (ρ.state j).main.held) hat fun j _ hat => ?_
  cases hheld : (ρ.state j).main.waiter.holds with
  | false =>
      exact .now (.inl ⟨by rw [hat]; exact nofun, by rw [hat]; exact nofun, fun _ _ => hheld⟩)
  | true =>
      have htakes := hmain.takes
        (P := fun s => s.main = (ρ.state j).main ∧ s.callback = .lock message) ⟨rfl, hat⟩
        (fun k _ hk => mainRuns_of_holds (hk.1 ▸ hheld)) fun k _ l hl hk hstep => by
          have hheld' : (ρ.state k).main.waiter.holds = true := hk.1 ▸ hheld
          exact ⟨(main_eq (mainRuns_of_holds hheld').1 hl hstep).trans hk.1,
            lock_stays hk.2 hheld' hstep⟩
      refine htakes.bind fun k _ hk => ?_
      obtain ⟨l, hl, hstep⟩ := hk.2.step
      have hheld' : (ρ.state k).main.waiter.holds = true := hk.1.1 ▸ hheld
      exact ⟨k + 1, Nat.le_succ k,
        .inr ⟨lock_stays hk.1.2 hheld' hstep, hk.1.1 ▸ main_held_lt hheld' hl hstep⟩⟩

/-- A callback that was called ends. -/
theorem eventually_done (hmain : ρ.Fair Call.MainRuns Label.OfMain)
    (hcallback : ρ.StrongFair Call.CallbackRuns Label.OfCallback)
    (hcalled : (ρ.state i).callback ≠ .uncalled) :
    Eventually i fun j => (ρ.state j).callback = .done := by
  refine eventually_of_rank (P := fun j => (ρ.state j).callback ≠ .uncalled)
    (fun j => (ρ.state j).callback.ahead) hcalled fun j _ hcalled => ?_
  by_cases hdone : (ρ.state j).callback = .done
  · exact .now (.inl hdone)
  · have htakes := hcallback.takes (P := fun s => s.callback = (ρ.state j).callback) rfl
      (fun k _ hk => ?_) fun k _ l hl hk hstep => (callback_eq (hk ▸ hcalled) hl hstep).trans hk
    · refine htakes.bind fun k _ hk => ?_
      obtain ⟨l, hl, hstep⟩ := hk.2.step
      have hlt := callback_ahead_lt hl hstep
      refine ⟨k + 1, Nat.le_succ k, .inr ⟨fun hat => ?_, hk.1 ▸ hlt⟩⟩
      rw [hat] at hlt
      exact absurd hlt (by cases (ρ.state k).callback <;> exact nofun)
    · cases hat : (ρ.state j).callback with
      | uncalled => exact absurd hat hcalled
      | done => exact absurd hat hdone
      | lock message => exact eventually_callbackRuns hmain (hk.trans hat)
      | finish | output | signal | unlock =>
          refine .now ⟨?_, ?_, ?_⟩ <;> rw [hk, hat] <;> exact nofun

/-- The run as one of the monitor. -/
def monitorRun (ρ : (system wanted).Run (Call.initial : Call α)) :
    (FlagMonitor.monitor True).Run (Call.initial : Call α).monitor :=
  ρ.map (f := Call.monitor) (g := Label.seen) fun i _ hstep =>
    step_seen (replied_of_reachable (ρ.reachable rfl i)).finished hstep

theorem monitorRun_fair (hmain : ρ.Fair Call.MainRuns Label.OfMain) :
    (monitorRun ρ).Fair (FlagMonitor.State.Runs True) FlagMonitor.Label.Waits := by
  refine hmain.map (fun s hs => mainRuns_of_runs hs) fun s l s' hl hstep => ?_
  cases hstep with
  | serviceCallFails hat | serviceCall hat =>
      exact .inr (by simp [Call.monitor, hat, Main.waiter, FlagMonitor.State.Runs])
  | @destroy result hat =>
      refine .inr ?_
      cases result <;> simp [Call.monitor, hat, Main.waiter, FlagMonitor.State.Runs]
  | lock | test | condWait | relock | unlock => exact .inl ⟨_, rfl, trivial⟩
  | _ => exact hl.elim

/-- A call that was sent and replied to gets past the loop. -/
theorem eventually_past (hmain : ρ.Fair Call.MainRuns Label.OfMain)
    (hdone : (ρ.state i).callback = .done) (hbegun : (ρ.state i).main.waiter ≠ .apart) :
    Eventually i fun j => (ρ.state j).main.waiter = .past := by
  have hsetter : ((monitorRun ρ).state i).setter = .done := by
    change (ρ.state i).callback.setter = .done
    rw [hdone]
    rfl
  have hgap : ∀ j, (monitorRun ρ).label j = some .signal →
      ((monitorRun ρ).state j).waiter ≠ .gap := by
    intro j hl
    have hstep := (monitorRun ρ).next j
    rw [hl] at hstep
    exact FlagMonitor.signal_not_in_gap ((monitorRun ρ).reachable rfl j) hstep
  have hheard := FlagMonitor.heard_of_sent (i := i) rfl hgap (by rw [hsetter]; rfl)
  exact FlagMonitor.eventually_past (monitorRun_fair hmain) hheard hsetter hbegun

/-- Where the call waits for nobody, it goes on. -/
theorem eventually_leaves (hmain : ρ.Fair Call.MainRuns Label.OfMain) {m : Main}
    (hready : m = .serviceCall ∨ m = .lock ∨ ∃ result, m = .destroy result)
    (hat : (ρ.state i).main = m) (hdone : m = .lock → (ρ.state i).callback = .done) :
    Eventually i fun j => (ρ.state j).main = m ∧ ρ.Takes Label.OfMain j := by
  have hwaiting : m ≠ .waiting := by rcases hready with rfl | rfl | ⟨_, rfl⟩ <;> exact nofun
  have hruns : ∀ s : Call α, s.main = m → (m = .lock → s.callback = .done) → s.MainRuns := by
    rintro s rfl hdone
    refine ⟨hwaiting, fun result h => ?_, fun h => ?_⟩
    · rw [h] at hready
      exact hready.elim nofun fun h => h.elim nofun fun ⟨_, h⟩ => nomatch h
    · rcases h with h | h
      · rw [hdone h]
        rfl
      · rw [h] at hready
        exact hready.elim nofun fun h => h.elim nofun fun ⟨_, h⟩ => nomatch h
  have htakes := hmain.takes (P := fun s => s.main = m ∧ (m = .lock → s.callback = .done))
    ⟨hat, hdone⟩ (fun _ _ hk => hruns _ hk.1 hk.2) fun k _ l hl hk hstep =>
      ⟨(main_eq (hk.1 ▸ hwaiting) hl hstep).trans hk.1, fun h => done_stays (hk.2 h) hstep⟩
  exact htakes.mono fun _ _ hk => ⟨hk.1.1, hk.2⟩

/-- Behind the loop the call returns. -/
theorem eventually_returned (hmain : ρ.Fair Call.MainRuns Label.OfMain) {result : Bool}
    (hat : (ρ.state i).main = .destroy result) :
    Eventually i fun j => (ρ.state j).main = .returned result := by
  refine (eventually_leaves hmain (.inr (.inr ⟨result, rfl⟩)) hat nofun).bind fun k _ hk => ?_
  obtain ⟨l, hl, hstep⟩ := hk.2.step
  exact ⟨k + 1, Nat.le_succ k, (main_next hl hstep).2.2 result hk.1⟩

/-- A call that was sent is replied to. -/
theorem eventually_called (hservice : ρ.Fair Call.ReplyDue Label.Replies)
    (hsent : (ρ.state i).main.Sent) : Eventually i fun j => (ρ.state j).callback ≠ .uncalled := by
  by_cases hcalled : (ρ.state i).callback = .uncalled
  · have htakes := hservice.takes (P := Call.ReplyDue) ⟨hsent, hcalled⟩ (fun _ _ hk => hk)
      fun k _ l hl hk hstep => reply_due_stays hk hl hstep
    refine htakes.bind fun k _ hk => ?_
    obtain ⟨l, hl, hstep⟩ := hk.2.step
    exact ⟨k + 1, Nat.le_succ k, called_of_replies hl hstep⟩
  · exact .now hcalled

/-- A callback that has ended lets the call return. -/
theorem eventually_returned_of_done (hmain : ρ.Fair Call.MainRuns Label.OfMain)
    (hdone : (ρ.state i).callback = .done) (hsent : (ρ.state i).main.Sent) :
    Eventually i fun j => ∃ result, (ρ.state j).main = .returned result := by
  have hpast : ∀ {k}, (ρ.state k).callback = .done → (ρ.state k).main.waiter ≠ .apart →
      Eventually k fun j => ∃ result, (ρ.state j).main = .returned result := by
    intro k hdone hbegun
    refine (eventually_past hmain hdone hbegun).bind fun n _ hn => ?_
    rcases of_waiter_past hn with hat | hat
    · exact (eventually_returned hmain hat).mono fun _ _ h => ⟨true, h⟩
    · exact .now ⟨true, hat⟩
  by_cases hat : (ρ.state i).main = .lock
  · refine (eventually_leaves hmain (.inr (.inl rfl)) hat fun _ => hdone).bind fun k hik hk => ?_
    obtain ⟨l, hl, hstep⟩ := hk.2.step
    have hdone' : (ρ.state (k + 1)).callback = .done := ρ.preserves
      (P := fun s => s.callback = .done) hdone (fun _ _ _ h hstep => done_stays h hstep)
      (Nat.le_succ_of_le hik)
    obtain ⟨j, hj, hreturned⟩ := hpast hdone' (by
      rw [(main_next hl hstep).2.1 hk.1]
      exact nofun)
    exact ⟨j, (Nat.le_succ k).trans hj, hreturned⟩
  · exact hpast hdone (begun_of_sent hsent hat)

/-- **A synchronous call returns**, in whatever order the threads run and however often
the waiting one wakes without a signal, if a call that was sent is replied to, and a
mutex that is free again and again is given to the callback in the end. -/
theorem HLunaServiceCallSync_returns (ρ : (system wanted).Run (Call.initial : Call α))
    (hmain : ρ.Fair Call.MainRuns Label.OfMain)
    (hcallback : ρ.StrongFair Call.CallbackRuns Label.OfCallback)
    (hservice : ρ.Fair Call.ReplyDue Label.Replies) :
    Eventually 0 fun j => ∃ result, (ρ.state j).main = .returned result := by
  have hstart : (ρ.state 0).main = .serviceCall := by
    rw [ρ.start]
    rfl
  refine (eventually_leaves hmain (.inl rfl) hstart nofun).bind fun k _ hk => ?_
  obtain ⟨l, hl, hstep⟩ := hk.2.step
  suffices h : Eventually (k + 1) fun j => ∃ result, (ρ.state j).main = .returned result from
    h.imp fun _ hj => ⟨(Nat.le_succ k).trans hj.1, hj.2⟩
  rcases (main_next hl hstep).1 hk.1 with hlock | hfails
  · have hsent : (ρ.state (k + 1)).main.Sent := by
      rw [hlock]
      trivial
    refine (eventually_called hservice hsent).bind fun m hkm hcalled => ?_
    refine (eventually_done hmain hcallback hcalled).bind fun n hmn hdone => ?_
    have hsent' : (ρ.state n).main.Sent := ρ.preserves (P := fun s => s.main.Sent) hsent
      (fun _ _ _ h hstep => sent_stays h hstep) (hkm.trans hmn)
    exact eventually_returned_of_done hmain hdone hsent'
  · exact (eventually_returned hmain hfails).mono fun _ _ h => ⟨false, h⟩

end Runs

theorem HLunaServiceCallSync_returns_reply :
    Eventually 0 fun j => ∃ result, (replyRun.state j).main = .returned result := by
  refine HLunaServiceCallSync_returns replyRun (fun i => ?_) (fun i hruns => ?_) fun i => ?_
  · exact ⟨i + 14, Nat.le_add_right i 14, .inr fun h => h.2.1 true rfl⟩
  · obtain ⟨k, hk, hruns⟩ := hruns (i + 14) (Nat.le_add_right i 14)
    obtain ⟨d, rfl⟩ := Nat.exists_eq_add_of_le hk
    rw [Nat.add_right_comm] at hruns
    exact absurd rfl hruns.2.1
  · exact ⟨i + 14, Nat.le_add_right i 14, .inr fun h => nomatch h.2⟩

end CommonsC.LunaSync
