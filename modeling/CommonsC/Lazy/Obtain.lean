import CommonsC.Base.Transition
import Mathlib.Logic.Function.Basic

/-!
# CommonsC.Lazy.Obtain

The lazy value of `util/lazy/lazy.h`, shared by threads.

A call of `lazy_obtain` holds the mutex while the supplier runs, and the mutex is
recursive: the supplier may call `lazy_obtain` itself.  `value_supplied` is set
before the supplier is called, so such a call does not call it again, and returns
what was in the memory (`Inside.nestedUnlock`).  `obtain_once` is what holds of
every interleaving.
-/

namespace CommonsC.Lazy

open TransitionSystem

variable {n : Nat} {α : Type*}

/-! ## The value -/

/-- What `lazy_t` holds, its mutex and its supplier apart. -/
structure LazyT (α : Type*) where
  value : α
  value_supplied : Bool

/-- `lazy_init`, which leaves the value as it is in the memory. -/
def lazyInit (lazy : LazyT α) : LazyT α := { lazy with value_supplied := false }

/-- `lazy_deinit`: what it returns, where `null` is `NULL`. -/
def lazyDeinit (null : α) (lazy : LazyT α) : α :=
  if lazy.value_supplied then lazy.value else null

/-! ## Calls -/

/-- Where a call of `lazy_obtain` is. -/
inductive ObtainPc (α : Type*) where
  /-- `SDL_LockMutex`. -/
  | lock
  /-- The test of `value_supplied`. -/
  | test
  /-- The supplier runs. -/
  | supplier
  /-- `SDL_UnlockMutex`, and `value` is returned. -/
  | unlock (value : α)

/-- A call that returned. -/
structure Returned (α : Type*) where
  /-- It was a call by the supplier. -/
  nested : Bool
  value : α

/-- The threads, with their calls in progress, innermost first.  The mutex is
counted, and belongs to one thread. -/
structure State (n : Nat) (α : Type*) where
  lazy : LazyT α
  holder : Option (Fin n)
  depth : Nat
  calls : Fin n → List (ObtainPc α)
  /-- How often the supplier was called, and what it returned. -/
  started : Nat
  supplied : List α
  returned : List (Returned α)

/-- A call goes on. -/
def State.setCalls (s : State n α) (τ : Fin n) (pcs : List (ObtainPc α)) : State n α :=
  { s with calls := Function.update s.calls τ pcs }

/-- Who moves: a thread or its supplier calls `lazy_obtain`, the innermost call
goes on, or the supplier returns. -/
inductive Label (n : Nat) where
  | call (τ : Fin n)
  | run (τ : Fin n)
  | supplier (τ : Fin n)

/-- A step of `lazy_obtain`. -/
inductive Step : State n α → Label n → State n α → Prop
  | call {s : State n α} {τ : Fin n}
      (h : s.calls τ = [] ∨ (s.calls τ).head? = some .supplier) :
      Step s (.call τ) (s.setCalls τ (.lock :: s.calls τ))
  | lock {s : State n α} {τ : Fin n} {outer : List (ObtainPc α)}
      (h : s.calls τ = .lock :: outer) (hfree : s.holder = none ∨ s.holder = some τ) :
      Step s (.run τ)
        { s.setCalls τ (.test :: outer) with holder := some τ, depth := s.depth + 1 }
  | obtain {s : State n α} {τ : Fin n} {outer : List (ObtainPc α)}
      (h : s.calls τ = .test :: outer) (hsupplied : s.lazy.value_supplied = true) :
      Step s (.run τ) (s.setCalls τ (.unlock s.lazy.value :: outer))
  | supply {s : State n α} {τ : Fin n} {outer : List (ObtainPc α)}
      (h : s.calls τ = .test :: outer) (hsupplied : s.lazy.value_supplied = false) :
      Step s (.run τ) { s.setCalls τ (.supplier :: outer) with
        lazy := { s.lazy with value_supplied := true }, started := s.started + 1 }
  | supplied {s : State n α} {τ : Fin n} {outer : List (ObtainPc α)} (value : α)
      (h : s.calls τ = .supplier :: outer) :
      Step s (.supplier τ) { s.setCalls τ (.unlock value :: outer) with
        lazy := { s.lazy with value }, supplied := s.supplied ++ [value] }
  | unlock {s : State n α} {τ : Fin n} {value : α} {outer : List (ObtainPc α)}
      (h : s.calls τ = .unlock value :: outer) :
      Step s (.run τ) { s.setCalls τ outer with
        holder := if s.depth = 1 then none else s.holder
        depth := s.depth - 1
        returned := s.returned ++ [⟨!outer.isEmpty, value⟩] }

/-- The state after `lazy_init`, where the memory had `garbage` for the value. -/
def initial (n : Nat) (garbage : LazyT α) : State n α where
  lazy := lazyInit garbage
  holder := none
  depth := 0
  calls _ := []
  started := 0
  supplied := []
  returned := []

/-- The threads that share the value. -/
def system (n : Nat) (garbage : LazyT α) : TransitionSystem (State n α) (Label n) where
  init s := s = initial n garbage
  step := Step

/-! ## What a thread can be at -/

section

variable (garbage : LazyT α)

/-- What the calls of the thread that holds the mutex, the value, the count of
the mutex and what the supplier did are, together. -/
inductive Inside : List (ObtainPc α) → LazyT α → Nat → Nat → List α → Prop
  | testUnset : Inside [.test] (lazyInit garbage) 1 0 []
  | testSet (value : α) : Inside [.test] ⟨value, true⟩ 1 1 [value]
  | unlock (value : α) : Inside [.unlock value] ⟨value, true⟩ 1 1 [value]
  | supplier : Inside [.supplier] ⟨garbage.value, true⟩ 1 1 []
  | nestedLock : Inside [.lock, .supplier] ⟨garbage.value, true⟩ 1 1 []
  | nestedTest : Inside [.test, .supplier] ⟨garbage.value, true⟩ 2 1 []
  | nestedUnlock : Inside [.unlock garbage.value, .supplier] ⟨garbage.value, true⟩ 2 1 []

/-- The same while no thread holds the mutex. -/
inductive Outside : LazyT α → Nat → Nat → List α → Prop
  | unset : Outside (lazyInit garbage) 0 0 []
  | set (value : α) : Outside ⟨value, true⟩ 0 1 [value]

/-- The mutex keeps all threads but one out, and that one is at one of few
places. -/
structure Guarded (s : State n α) : Prop where
  outside : ∀ τ, s.holder ≠ some τ → s.calls τ = [] ∨ s.calls τ = [.lock]
  free : s.holder = none → Outside garbage s.lazy s.depth s.started s.supplied
  held : ∀ τ, s.holder = some τ →
    Inside garbage (s.calls τ) s.lazy s.depth s.started s.supplied
  returned : ∀ r ∈ s.returned,
    if r.nested then r.value = garbage.value else s.supplied = [r.value]

variable {garbage}

theorem guarded_initial : Guarded garbage (initial n garbage) where
  outside _ _ := .inl rfl
  free _ := .unset
  held _ h := nomatch h
  returned _ h := nomatch h

@[simp] theorem setCalls_self (s : State n α) (τ : Fin n) (pcs : List (ObtainPc α)) :
    (s.setCalls τ pcs).calls τ = pcs := by simp [State.setCalls]

theorem setCalls_of_ne (s : State n α) {τ σ : Fin n} (h : σ ≠ τ) (pcs : List (ObtainPc α)) :
    (s.setCalls τ pcs).calls σ = s.calls σ := by simp [State.setCalls, h]

namespace Guarded

variable {s s' : State n α} {τ : Fin n}

/-- The thread that gets or keeps the mutex moves. -/
theorem of_held (hs : Guarded garbage s) (hbefore : s.holder = none ∨ s.holder = some τ)
    (hholder : s'.holder = some τ) (hothers : ∀ σ, σ ≠ τ → s'.calls σ = s.calls σ)
    (hinside : Inside garbage (s'.calls τ) s'.lazy s'.depth s'.started s'.supplied)
    (hreturned : ∀ r ∈ s'.returned,
      if r.nested then r.value = garbage.value else s'.supplied = [r.value]) :
    Guarded garbage s' where
  outside σ hσ := by
    have hne : σ ≠ τ := fun heq => hσ (heq ▸ hholder)
    rw [hothers σ hne]
    refine hs.outside σ fun h => ?_
    rcases hbefore with hnone | hsome
    · cases hnone.symm.trans h
    · exact hne (Option.some.inj (h.symm.trans hsome))
  free hfree := by cases hholder.symm.trans hfree
  held σ hσ := by
    obtain rfl : τ = σ := Option.some.inj (hholder.symm.trans hσ)
    exact hinside
  returned := hreturned

/-- The thread that has the mutex gives it back. -/
theorem of_free (hs : Guarded garbage s) (hholder : s.holder = some τ) (hfree : s'.holder = none)
    (hothers : ∀ σ, σ ≠ τ → s'.calls σ = s.calls σ) (hnil : s'.calls τ = [])
    (houtside : Outside garbage s'.lazy s'.depth s'.started s'.supplied)
    (hreturned : ∀ r ∈ s'.returned,
      if r.nested then r.value = garbage.value else s'.supplied = [r.value]) :
    Guarded garbage s' where
  outside σ _ := by
    by_cases heq : σ = τ
    · exact .inl (heq ▸ hnil)
    · rw [hothers σ heq]
      exact hs.outside σ fun h => heq (Option.some.inj (h.symm.trans hholder))
  free _ := houtside
  held σ hσ := by cases hfree.symm.trans hσ
  returned := hreturned

/-- A thread that has calls other than one that waits holds the mutex. -/
theorem holder_of_calls (hs : Guarded garbage s) {pc : ObtainPc α} {outer : List (ObtainPc α)}
    (h : s.calls τ = pc :: outer) (hpc : pc ≠ .lock) : s.holder = some τ := by
  by_contra hother
  rcases hs.outside τ hother with hnil | hlock
  · cases hnil.symm.trans h
  · rw [hlock, List.cons.injEq] at h
    exact hpc h.1.symm

/-- Who holds the mutex is inside, at the calls that it has. -/
theorem inside (hs : Guarded garbage s) {pcs : List (ObtainPc α)} (h : s.calls τ = pcs)
    (hholder : s.holder = some τ) :
    Inside garbage pcs s.lazy s.depth s.started s.supplied := h ▸ hs.held τ hholder

end Guarded

/-- **Every step keeps the mutex and the value right.** -/
theorem guarded_step {s s' : State n α} {l : Label n} (hs : Guarded garbage s)
    (h : Step s l s') : Guarded garbage s' := by
  obtain ⟨lazy, holder, depth, calls, started, supplied, returned⟩ := s
  cases h with
  | @call τ hcall =>
      have hothers := fun σ (hσ : σ ≠ τ) =>
        setCalls_of_ne ⟨lazy, holder, depth, calls, started, supplied, returned⟩ hσ
          (.lock :: calls τ)
      by_cases hholder : holder = some τ
      · -- The supplier calls.
        refine hs.of_held (.inr hholder) hholder hothers ?_ hs.returned
        rw [setCalls_self]
        obtain hnil | ⟨outer, houter⟩ := hcall.imp_right List.head?_eq_some_iff.1
        · cases hs.inside hnil hholder
        · have hinside := hs.inside houter hholder
          change Inside garbage (.lock :: calls τ) lazy depth started supplied
          rw [show calls τ = .supplier :: outer from houter]
          cases hinside
          exact .nestedLock
      · have hnil : calls τ = [] := by
          rcases hs.outside τ hholder with hnil | hlock
          · exact hnil
          · rcases hcall with hcall | hcall
            · exact hcall
            · cases (congrArg List.head? hlock).symm.trans hcall
        refine ⟨fun σ hσ => ?_, hs.free, fun σ hσ => ?_, hs.returned⟩
        · by_cases heq : σ = τ
          · rw [heq, setCalls_self]
            exact .inr (congrArg (.lock :: ·) hnil)
          · rw [hothers σ heq]
            exact hs.outside σ hσ
        · have hne : σ ≠ τ := fun heq => hholder (heq ▸ hσ)
          rw [hothers σ hne]
          exact hs.held σ hσ
  | @lock τ outer hcalls hfree =>
      refine hs.of_held hfree rfl (fun σ hσ => setCalls_of_ne _ hσ _) ?_ hs.returned
      by_cases hholder : holder = some τ
      · cases hs.inside hcalls hholder
        simpa using .nestedTest
      · have houter : outer = [] := by
          rcases hs.outside τ hholder with hnil | hlock
          · cases hnil.symm.trans hcalls
          · exact (List.cons.inj (hcalls.symm.trans hlock)).2
        subst houter
        cases hs.free (hfree.resolve_right hholder) with
        | unset => simpa using .testUnset
        | set value => simpa using .testSet value
  | @obtain τ outer hcalls hsupplied =>
      have hholder := hs.holder_of_calls hcalls nofun
      refine hs.of_held (.inr hholder) hholder (fun σ hσ => setCalls_of_ne _ hσ _) ?_ hs.returned
      cases hs.inside hcalls hholder with
      | testUnset => cases hsupplied
      | testSet value => simpa using .unlock value
      | nestedTest => simpa using .nestedUnlock
  | @supply τ outer hcalls hsupplied =>
      have hholder := hs.holder_of_calls hcalls nofun
      refine hs.of_held (.inr hholder) hholder (fun σ hσ => setCalls_of_ne _ hσ _) ?_ hs.returned
      cases hs.inside hcalls hholder with
      | testUnset => simpa using .supplier
      | testSet value => cases hsupplied
      | nestedTest => cases hsupplied
  | @supplied τ outer value hcalls =>
      have hholder := hs.holder_of_calls hcalls nofun
      cases hs.inside hcalls hholder
      refine hs.of_held (.inr hholder) hholder (fun σ hσ => setCalls_of_ne _ hσ _)
        (by simpa using .unlock value) fun r hr => ?_
      -- No call but the supplier's own has returned.
      have hr := hs.returned r hr
      split at hr <;> simp_all
  | @unlock τ value outer hcalls =>
      have hholder := hs.holder_of_calls hcalls nofun
      have hinside := hs.inside hcalls hholder
      have hreturned : ∀ r ∈ returned ++ [⟨!outer.isEmpty, value⟩],
          if r.nested then r.value = garbage.value else supplied = [r.value] := by
        intro r hr
        rcases List.mem_append.1 hr with hr | hr
        · exact hs.returned r hr
        · rw [List.mem_singleton.1 hr]
          cases hinside <;> rfl
      cases hinside with
      | unlock =>
          exact hs.of_free hholder rfl (fun σ hσ => setCalls_of_ne _ hσ _) (setCalls_self _ τ _)
            (.set value) hreturned
      | nestedUnlock =>
          exact hs.of_held (.inr hholder) hholder (fun σ hσ => setCalls_of_ne _ hσ _)
            (by simpa using .supplier) hreturned

theorem guarded_of_reachable {s : State n α} (h : (system n garbage).Reachable s) :
    Guarded garbage s :=
  h.invariant (fun _ hs => hs ▸ guarded_initial) fun _ _ _ _ hs hstep => guarded_step hs hstep

/-- Some call can go on, or the supplier return, while there is a call. -/
theorem Guarded.exists_step {s : State n α} (hs : Guarded garbage s) {τ : Fin n}
    (h : s.calls τ ≠ []) : ∃ l s', (∀ σ, l ≠ .call σ) ∧ Step s l s' := by
  cases hholder : s.holder with
  | none =>
      have hlock : s.calls τ = [.lock] :=
        (hs.outside τ (by rw [hholder]; nofun)).resolve_left h
      exact ⟨.run τ, _, nofun, .lock hlock (.inl hholder)⟩
  | some σ =>
      have htest : ∀ outer, s.calls σ = .test :: outer → ∃ s', Step s (.run σ) s' := by
        intro outer hcalls
        cases hsupplied : s.lazy.value_supplied with
        | true => exact ⟨_, .obtain hcalls hsupplied⟩
        | false => exact ⟨_, .supply hcalls hsupplied⟩
      obtain ⟨pcs, hcalls⟩ : ∃ pcs, s.calls σ = pcs := ⟨_, rfl⟩
      have hinside := hs.inside hcalls hholder
      obtain ⟨lazy, holder, depth, calls, started, supplied, returned⟩ := s
      cases hinside with
      | testUnset | testSet | nestedTest =>
          obtain ⟨s', hstep⟩ := htest _ hcalls
          exact ⟨.run σ, s', nofun, hstep⟩
      | unlock | nestedUnlock => exact ⟨.run σ, _, nofun, .unlock hcalls⟩
      | supplier => exact ⟨.supplier σ, _, nofun, .supplied garbage.value hcalls⟩
      | nestedLock => exact ⟨.run σ, _, nofun, .lock hcalls (.inr hholder)⟩

/-- **The supplier is called once**, whatever the interleaving.  Every call that
returns returns what the supplier did, but for the calls of the supplier, which
return what was in the memory.  Some call can always go on, and when there is
none `lazy_deinit` returns what was supplied. -/
theorem obtain_once (null : α) {s : State n α} (h : (system n garbage).Reachable s) :
    s.started ≤ 1 ∧
    (∀ r ∈ s.returned, if r.nested then r.value = garbage.value else s.supplied = [r.value]) ∧
    ((∃ τ, s.calls τ ≠ []) → ∃ l s', (∀ τ, l ≠ .call τ) ∧ Step s l s') ∧
    ((∀ τ, s.calls τ = []) → lazyDeinit null s.lazy = s.supplied.head?.getD null) := by
  have hs := guarded_of_reachable h
  obtain ⟨lazy, holder, depth, calls, started, supplied, returned⟩ := s
  refine ⟨?_, hs.returned, fun ⟨τ, hτ⟩ => hs.exists_step hτ, fun hnil => ?_⟩
  · cases holder with
    | none => cases hs.free rfl <;> simp
    | some τ =>
        obtain ⟨pcs, hcalls⟩ : ∃ pcs, calls τ = pcs := ⟨_, rfl⟩
        cases hs.inside hcalls rfl <;> simp
  · cases holder with
    | none => cases hs.free rfl <;> rfl
    | some τ => cases hs.inside (hnil τ) rfl

/-- The supplier obtains the value itself, and returns another one. -/
theorem obtain_once_nested : ∃ s : State 1 Nat, (system 1 ⟨0, true⟩).Reachable s ∧
    s.returned = [⟨true, 0⟩, ⟨false, 7⟩] ∧ s.started ≤ 1 ∧ lazyDeinit 0 s.lazy = 7 := by
  have h : (system 1 (⟨0, true⟩ : LazyT Nat)).Reachable (initial 1 ⟨0, true⟩) := .init rfl
  have h := h.step (.call (τ := 0) (.inl rfl))
  have h := h.step (.lock (τ := 0) rfl (.inl rfl))
  have h := h.step (.supply (τ := 0) rfl rfl)
  have h := h.step (.call (τ := 0) (.inr rfl))
  have h := h.step (.lock (τ := 0) rfl (.inr rfl))
  have h := h.step (.obtain (τ := 0) rfl rfl)
  have h := h.step (.unlock (τ := 0) rfl)
  have h := h.step (.supplied (τ := 0) 7 rfl)
  have h := h.step (.unlock (τ := 0) rfl)
  have honce := obtain_once 0 h
  exact ⟨_, h, rfl, honce.1, honce.2.2.2 (by decide)⟩

end

end CommonsC.Lazy
