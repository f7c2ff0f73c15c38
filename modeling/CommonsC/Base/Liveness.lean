import CommonsC.Base.Transition
import Mathlib.Algebra.BigOperators.Fin
import Mathlib.Algebra.Order.BigOperators.Group.Finset
import Mathlib.Order.OrderIsoNat

/-!
# CommonsC.Base.Liveness

What has to happen in an infinite run of a transition system.

A run may also stand still.  `Fair C A` says that it does not do so, nor turn to
other things, for ever while it owes a step of `A`: where `C` holds from some
time on, such a step is taken.  The rules are

* `Fair.takes`, `StrongFair.takes` — what stays until a step of `A`, and owes one, gets it;
* `eventually_of_rank` — a rank that falls again and again reaches its end;
* `exists_settled` — measures that never grow stop to change, all together.
-/

namespace TransitionSystem

variable {σ ι : Type*}

/-- A step under a label of `A` can be taken. -/
def Enabled (T : TransitionSystem σ ι) (A : ι → Prop) (s : σ) : Prop :=
  ∃ l s', A l ∧ T.step s l s'

/-- An infinite run from `s`.  Where the label is `none` nothing happens. -/
structure Run (T : TransitionSystem σ ι) (s : σ) where
  state : ℕ → σ
  label : ℕ → Option ι
  start : state 0 = s
  next : ∀ i, (label i).elim (state (i + 1) = state i) fun l => T.step (state i) l (state (i + 1))

/-- `P` holds at some time from `i` on. -/
def Eventually (i : ℕ) (P : ℕ → Prop) : Prop := ∃ j, i ≤ j ∧ P j

theorem Eventually.now {i : ℕ} {P : ℕ → Prop} (h : P i) : Eventually i P := ⟨i, le_rfl, h⟩

theorem Eventually.mono {i : ℕ} {P Q : ℕ → Prop} (h : Eventually i P)
    (hPQ : ∀ j, i ≤ j → P j → Q j) : Eventually i Q := by
  obtain ⟨j, hij, hj⟩ := h
  exact ⟨j, hij, hPQ j hij hj⟩

/-- What happens after something that happens. -/
theorem Eventually.bind {i : ℕ} {P Q : ℕ → Prop} (h : Eventually i P)
    (hPQ : ∀ j, i ≤ j → P j → Eventually j Q) : Eventually i Q := by
  obtain ⟨j, hij, hj⟩ := h
  obtain ⟨k, hjk, hk⟩ := hPQ j hij hj
  exact ⟨k, hij.trans hjk, hk⟩

/-- A rank that falls again and again, until `Q`. -/
theorem eventually_of_rank {P Q : ℕ → Prop} (rank : ℕ → ℕ) {i : ℕ} (hi : P i)
    (hstep : ∀ j, i ≤ j → P j → Eventually j fun k => Q k ∨ (P k ∧ rank k < rank j)) :
    Eventually i Q := by
  induction hn : rank i using Nat.strong_induction_on generalizing i with
  | _ n ih =>
      refine (hstep i le_rfl hi).bind fun k hik hk => ?_
      rcases hk with hQ | ⟨hP, hlt⟩
      · exact .now hQ
      · exact ih (rank k) (hn ▸ hlt) hP (fun j hkj => hstep j (hik.trans hkj)) rfl

/-- Finitely many measures that never grow stop to change. -/
theorem exists_settled {κ : Type*} [Fintype κ] (f : κ → ℕ → ℕ) {i : ℕ}
    (hf : ∀ x j, i ≤ j → f x (j + 1) ≤ f x j) :
    Eventually i fun n => ∀ j, n ≤ j → ∀ x, f x j = f x n := by
  have hanti : ∀ x, Antitone fun d => f x (i + d) := fun x =>
    antitone_nat_of_succ_le fun d => hf x (i + d) (Nat.le_add_right i d)
  have hsum : Antitone fun d => ∑ x, f x (i + d) := fun d e hde =>
    Finset.sum_le_sum fun x _ => hanti x hde
  -- The sum comes to an end, and with it each of them.
  obtain ⟨n, hn⟩ := WellFoundedGT.monotone_chain_condition (α := ℕᵒᵈ)
    ⟨fun d => OrderDual.toDual (∑ x, f x (i + d)), fun d e hde => hsum hde⟩
  refine ⟨i + n, Nat.le_add_right i n, fun j hj x => ?_⟩
  obtain ⟨e, rfl⟩ := Nat.exists_eq_add_of_le hj
  have hle : ∀ y ∈ Finset.univ, f y (i + (n + e)) ≤ f y (i + n) := fun y _ =>
    hanti y (Nat.le_add_right n e)
  have heq : ∑ y, f y (i + (n + e)) = ∑ y, f y (i + n) :=
    (OrderDual.toDual.injective (hn (n + e) (Nat.le_add_right n e))).symm
  rw [Nat.add_assoc]
  exact (Finset.sum_eq_sum_iff_of_le hle).1 heq x (Finset.mem_univ x)

namespace Run

variable {T : TransitionSystem σ ι} {s₀ : σ}

/-- Step `i` is one of `A`. -/
def Takes (ρ : T.Run s₀) (A : ι → Prop) (i : ℕ) : Prop := ∃ l ∈ ρ.label i, A l

/-- Where `C` holds for ever, a step of `A` is taken. -/
def Fair (ρ : T.Run s₀) (C : σ → Prop) (A : ι → Prop) : Prop :=
  ∀ i, Eventually i fun j => ρ.Takes A j ∨ ¬C (ρ.state j)

variable {ρ : T.Run s₀}

/-- A moment of a run: nothing happens, or a step is taken. -/
theorem next_cases (ρ : T.Run s₀) (i : ℕ) :
    (ρ.label i = none ∧ ρ.state (i + 1) = ρ.state i) ∨
      ∃ l, ρ.label i = some l ∧ T.step (ρ.state i) l (ρ.state (i + 1)) := by
  have h := ρ.next i
  cases hl : ρ.label i with
  | none =>
      rw [hl] at h
      exact .inl ⟨rfl, h⟩
  | some l =>
      rw [hl] at h
      exact .inr ⟨l, rfl, h⟩

theorem reachable (ρ : T.Run s₀) (h : T.init s₀) (i : ℕ) : T.Reachable (ρ.state i) := by
  induction i with
  | zero => exact .init (by rwa [ρ.start])
  | succ i ih =>
      rcases ρ.next_cases i with ⟨-, hsame⟩ | ⟨l, -, hstep⟩
      · rwa [hsame]
      · exact ih.step hstep

theorem Takes.step {A : ι → Prop} {i : ℕ} (h : ρ.Takes A i) :
    ∃ l, A l ∧ T.step (ρ.state i) l (ρ.state (i + 1)) := by
  obtain ⟨l, hl, hA⟩ := h
  have hnext := ρ.next i
  rw [hl] at hnext
  exact ⟨l, hA, hnext⟩

/-- What a step keeps, the run keeps. -/
theorem preserves {P : σ → Prop} {i : ℕ} (hi : P (ρ.state i))
    (hstep : ∀ j, i ≤ j → ∀ l, P (ρ.state j) → T.step (ρ.state j) l (ρ.state (j + 1)) →
      P (ρ.state (j + 1))) {j : ℕ} (hj : i ≤ j) : P (ρ.state j) := by
  induction j, hj using Nat.le_induction with
  | base => exact hi
  | succ j hj ih =>
      rcases ρ.next_cases j with ⟨-, hsame⟩ | ⟨l, -, hl⟩
      · rwa [hsame]
      · exact hstep j hj l ih hl

theorem Fair.mono {C : σ → Prop} {A B : ι → Prop} (h : ρ.Fair C A) (hAB : ∀ l, A l → B l) :
    ρ.Fair C B := fun i =>
  (h i).mono fun _ _ => Or.imp_left fun ⟨l, hl, hA⟩ => ⟨l, hl, hAB l hA⟩

/-- Where `C` holds again and again, a step of `A` is taken. -/
def StrongFair (ρ : T.Run s₀) (C : σ → Prop) (A : ι → Prop) : Prop :=
  ∀ i, (∀ j, i ≤ j → Eventually j fun k => C (ρ.state k)) → Eventually i (ρ.Takes A)

/-- What stays until a step of `A` stays for ever if there is none. -/
theorem stays_of_never {A : ι → Prop} {P : σ → Prop} {i : ℕ} (hi : P (ρ.state i))
    (hstays : ∀ j, i ≤ j → ∀ l, ¬A l → P (ρ.state j) →
      T.step (ρ.state j) l (ρ.state (j + 1)) → P (ρ.state (j + 1)))
    (hnever : ¬Eventually i fun j => P (ρ.state j) ∧ ρ.Takes A j) {j : ℕ} (hj : i ≤ j) :
    P (ρ.state j) := by
  induction j, hj using Nat.le_induction with
  | base => exact hi
  | succ j hj ih =>
      rcases ρ.next_cases j with ⟨-, hsame⟩ | ⟨l, hl, hstep⟩
      · rwa [hsame]
      · have hA : ¬A l := fun hA => hnever ⟨j, hj, ih, l, hl, hA⟩
        exact hstays j hj l hA ih hstep

/-- **What owes a step of `A`, and stays until then, gets it.** -/
theorem Fair.takes {C : σ → Prop} {A : ι → Prop} (hfair : ρ.Fair C A) {P : σ → Prop} {i : ℕ}
    (hi : P (ρ.state i)) (howes : ∀ j, i ≤ j → P (ρ.state j) → C (ρ.state j))
    (hstays : ∀ j, i ≤ j → ∀ l, ¬A l → P (ρ.state j) →
      T.step (ρ.state j) l (ρ.state (j + 1)) → P (ρ.state (j + 1))) :
    Eventually i fun j => P (ρ.state j) ∧ ρ.Takes A j := by
  by_contra hnever
  obtain ⟨j, hij, htakes | howed⟩ := hfair i
  · exact hnever ⟨j, hij, stays_of_never hi hstays hnever hij, htakes⟩
  · exact howed (howes j hij (stays_of_never hi hstays hnever hij))

/-- What owes a step of `A` again and again, and stays until then, gets it. -/
theorem StrongFair.takes {C : σ → Prop} {A : ι → Prop} (hfair : ρ.StrongFair C A) {P : σ → Prop}
    {i : ℕ} (hi : P (ρ.state i))
    (howes : ∀ j, i ≤ j → P (ρ.state j) → Eventually j fun k => C (ρ.state k))
    (hstays : ∀ j, i ≤ j → ∀ l, ¬A l → P (ρ.state j) →
      T.step (ρ.state j) l (ρ.state (j + 1)) → P (ρ.state (j + 1))) :
    Eventually i fun j => P (ρ.state j) ∧ ρ.Takes A j := by
  by_contra hnever
  obtain ⟨j, hij, htakes⟩ := hfair i fun j hij =>
    howes j hij (stays_of_never hi hstays hnever hij)
  exact hnever ⟨j, hij, stays_of_never hi hstays hnever hij, htakes⟩

/-! ## Runs seen in another system -/

section Map

variable {τ κ : Type*} {U : TransitionSystem τ κ} {f : σ → τ} {g : ι → Option κ}

/-- A run of one system, seen as a run of another one: each step is one of that
system, or changes nothing there. -/
def map (ρ : T.Run s₀)
    (h : ∀ i l, T.step (ρ.state i) l (ρ.state (i + 1)) → (g l).elim
      (f (ρ.state (i + 1)) = f (ρ.state i))
      fun k => U.step (f (ρ.state i)) k (f (ρ.state (i + 1)))) : U.Run (f s₀) where
  state i := f (ρ.state i)
  label i := (ρ.label i).bind g
  start := congrArg f ρ.start
  next i := by
    rcases ρ.next_cases i with ⟨hl, hsame⟩ | ⟨l, hl, hstep⟩
    · rw [hl]
      exact congrArg f hsame
    · rw [hl]
      exact h i l hstep

/-- A label that only one label is seen as. -/
theorem map_label {h : ∀ i l, T.step (ρ.state i) l (ρ.state (i + 1)) → (g l).elim
      (f (ρ.state (i + 1)) = f (ρ.state i))
      fun k => U.step (f (ρ.state i)) k (f (ρ.state (i + 1)))}
    {l : ι} {k : κ} (hl : g l = some k) (hone : ∀ m, g m = some k → m = l) {j : ℕ} :
    (ρ.map h).label j = some k ↔ ρ.label j = some l := by
  refine Option.bind_eq_some_iff.trans ⟨fun ⟨m, hm, hseen⟩ => ?_, fun h => ⟨l, h, hl⟩⟩
  rwa [hone m hseen] at hm

/-- Fairness is seen there. -/
theorem Fair.map {C : σ → Prop} {A : ι → Prop} (hfair : ρ.Fair C A)
    {h : ∀ i l, T.step (ρ.state i) l (ρ.state (i + 1)) → (g l).elim
      (f (ρ.state (i + 1)) = f (ρ.state i))
      fun k => U.step (f (ρ.state i)) k (f (ρ.state (i + 1)))}
    {D : τ → Prop} {B : κ → Prop} (hCD : ∀ s, D (f s) → C s)
    (hAB : ∀ s l s', A l → T.step s l s' → (∃ k ∈ g l, B k) ∨ ¬D (f s)) :
    (ρ.map h).Fair D B := by
  intro i
  refine (hfair i).mono fun j _ hj => ?_
  rcases hj with htakes | howes
  · obtain ⟨l, hl, hA⟩ := htakes
    have hstep := ρ.next j
    rw [hl] at hstep
    refine (hAB _ l _ hA hstep).imp_left fun ⟨k, hk, hB⟩ => ⟨k, ?_, hB⟩
    change k ∈ (ρ.label j).bind g
    rw [hl]
    exact hk
  · exact .inr (mt (hCD _) howes)

end Map

/-! ## Runs with an end -/

/-- The run that stands still. -/
def idle (T : TransitionSystem σ ι) (s : σ) : T.Run s where
  state _ := s
  label _ := none
  start := rfl
  next _ := rfl

/-- A step before a run. -/
def cons {s : σ} {l : ι} {s' : σ} (h : T.step s l s') (ρ : T.Run s') : T.Run s where
  state i := i.casesOn s ρ.state
  label i := i.casesOn (some l) ρ.label
  start := rfl
  next
    | 0 => by
        change T.step s l (ρ.state 0)
        rwa [ρ.start]
    | i + 1 => ρ.next i

/-- A path is a run that stands still at its end; the steps of a restricted
system meet its condition. -/
theorem exists_of_path {ok : σ → ι → Prop} {s s' : σ} {ls : List ι}
    (h : (T.restrict ok).Path s ls s') :
    ∃ ρ : T.Run s, (∀ i, ls.length ≤ i → ρ.state i = s' ∧ ρ.label i = none) ∧
      ∀ i, ∀ l ∈ ρ.label i, ok (ρ.state i) l := by
  induction h with
  | nil s => exact ⟨idle T s, fun i _ => ⟨rfl, rfl⟩, fun i l hl => nomatch hl⟩
  | cons hstep _ ih =>
      obtain ⟨ρ, hend, hok⟩ := ih
      refine ⟨ρ.cons hstep.2, fun i hi => ?_, fun i l hl => ?_⟩
      · cases i with
        | zero => exact absurd hi (Nat.not_succ_le_zero _)
        | succ i => exact hend i (Nat.le_of_succ_le_succ hi)
      · cases i with
        | zero =>
            cases hl
            exact hstep.1
        | succ i => exact hok i l hl

/-- A run that stands still is fair to what it does not owe. -/
theorem fair_of_end {s' : σ} {n : ℕ} (h : ∀ i, n ≤ i → ρ.state i = s' ∧ ρ.label i = none)
    {C : σ → Prop} (hC : ¬C s') (A : ι → Prop) : ρ.Fair C A := fun i =>
  ⟨max i n, le_max_left i n, .inr (by rwa [(h _ (le_max_right i n)).1])⟩

end Run

end TransitionSystem
