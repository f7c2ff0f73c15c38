import Mathlib.Logic.Relation

/-!
# CommonsC.Base.Transition

Labelled transition systems: reachable states, labelled paths, inductive
invariants, systems restricted to the steps that meet a condition, and
forward simulation.

Everything here is over arbitrary state and label types.  A system is a
predicate on initial states and a three-place step relation; the rules the
developments above use are

* `Reachable.invariant` — what holds initially and is kept by every step
  holds in every reachable state;
* `Reachable.of_restrict` — restricting the steps reaches fewer states;
* `Simulation.reachable` — a simulated system reaches only states that are
  related to reachable states of the abstract one.
-/

/-- A transition system with states `σ` and labels `ι`. -/
structure TransitionSystem (σ : Type*) (ι : Type*) where
  /-- The initial states. -/
  init : σ → Prop
  /-- `step s l s'`: the system can move from `s` to `s'` under the label `l`. -/
  step : σ → ι → σ → Prop

namespace TransitionSystem

variable {σ ι τ κ : Type*}

/-! ## Reachability -/

/-- The states the system can get into from an initial one. -/
inductive Reachable (T : TransitionSystem σ ι) : σ → Prop
  | init {s : σ} : T.init s → Reachable T s
  | step {s s' : σ} {l : ι} : Reachable T s → T.step s l s' → Reachable T s'

/-- `Path T s ls s'`: the labels `ls`, taken in order, lead from `s` to `s'`. -/
inductive Path (T : TransitionSystem σ ι) : σ → List ι → σ → Prop
  | nil (s : σ) : Path T s [] s
  | cons {s s' s'' : σ} {l : ι} {ls : List ι} :
      T.step s l s' → Path T s' ls s'' → Path T s (l :: ls) s''

/-- A path out of a reachable state ends in a reachable state. -/
theorem Path.reachable {T : TransitionSystem σ ι} {s s' : σ} {ls : List ι}
    (h : T.Path s ls s') (hs : T.Reachable s) : T.Reachable s' := by
  induction h with
  | nil => exact hs
  | cons hstep _ ih => exact ih (.step hs hstep)

/-! ## Invariants -/

/-- What holds initially and is kept by every step out of a reachable state
holds in every reachable state. -/
theorem Reachable.invariant {T : TransitionSystem σ ι} {P : σ → Prop} {s : σ}
    (hs : T.Reachable s) (hinit : ∀ s, T.init s → P s)
    (hstep : ∀ s l s', T.Reachable s → P s → T.step s l s' → P s') : P s := by
  induction hs with
  | init h => exact hinit _ h
  | step hr h ih => exact hstep _ _ _ hr ih h

/-- What a step keeps, a path keeps. -/
theorem Path.preserves {T : TransitionSystem σ ι} {P : σ → Prop} {s s' : σ} {ls : List ι}
    (h : T.Path s ls s') (hs : P s) (hstep : ∀ s l s', P s → T.step s l s' → P s') : P s' := by
  induction h with
  | nil => exact hs
  | cons hl _ ih => exact ih (hstep _ _ _ hs hl)

/-! ## Restriction -/

/-- The system that takes only the steps meeting the condition `ok`. -/
def restrict (T : TransitionSystem σ ι) (ok : σ → ι → Prop) : TransitionSystem σ ι where
  init := T.init
  step s l s' := ok s l ∧ T.step s l s'

/-- Restricting the steps reaches no new state. -/
theorem Reachable.of_restrict {T : TransitionSystem σ ι} {ok : σ → ι → Prop} {s : σ}
    (h : (T.restrict ok).Reachable s) : T.Reachable s := by
  induction h with
  | init h => exact .init h
  | step _ h ih => exact .step ih h.2

/-! ## Simulation -/

/-- `R` is a forward simulation: initial states are related to initial
states, and a concrete step is answered by zero or more abstract steps. -/
structure Simulation (C : TransitionSystem σ ι) (A : TransitionSystem τ κ)
    (R : σ → τ → Prop) : Prop where
  init : ∀ s, C.init s → ∃ a, A.init a ∧ R s a
  step : ∀ s l s' a, C.Reachable s → R s a → C.step s l s' → ∃ ls a', A.Path a ls a' ∧ R s' a'

/-- Every reachable concrete state is related to a reachable abstract one. -/
theorem Simulation.reachable {C : TransitionSystem σ ι} {A : TransitionSystem τ κ}
    {R : σ → τ → Prop} (h : Simulation C A R) {s : σ} (hs : C.Reachable s) :
    ∃ a, A.Reachable a ∧ R s a := by
  induction hs with
  | init hi =>
      obtain ⟨a, ha, hR⟩ := h.init _ hi
      exact ⟨a, .init ha, hR⟩
  | step hr hl ih =>
      obtain ⟨a, ha, hR⟩ := ih
      obtain ⟨ls, a', hp, hR'⟩ := h.step _ _ _ a hr hR hl
      exact ⟨a', hp.reachable ha, hR'⟩

end TransitionSystem
