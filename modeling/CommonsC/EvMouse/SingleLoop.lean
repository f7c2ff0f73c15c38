import CommonsC.EvMouse.Model

/-!
# CommonsC.EvMouse.SingleLoop

At most one call of `evmouse_listen` listens, unless a second one comes too
early.

An interrupt clears `listening`, and a call that is in the loop sees that at its
next check.  Until then only `interrupted` keeps other calls out, and whoever
comes first clears it: the call after that enters, and sets `listening` again
under the eyes of the one that was to stop.
-/

namespace CommonsC.EvMouse

variable {τ : Type*} [DecidableEq τ]

/-- Only one call is in the loop while `listening` is set. -/
def Single (s : State τ) : Prop :=
  s.mouse.listening = true → ∀ t u, s.pc t = .loop → s.pc u = .loop → t = u

/-- The step is no entry that both flags let pass while another call is still in
the loop. -/
def Undisturbed (s : State τ) (l : Label τ) : Prop :=
  ∀ t, l = .listen t → s.mouse.listening = false → s.mouse.interrupted = false →
    ∀ u, s.pc u ≠ .loop

/-! ## Steps -/

/-- Which call is in the loop after an entry. -/
theorem pc_update_loop {pc : τ → Pc} {t u : τ} {v : Pc} (hv : v ≠ .loop)
    (h : Function.update pc t v u = .loop) : pc u = .loop := by
  by_cases hu : u = t
  · subst hu
    rw [Function.update_self] at h
    exact absurd h hv
  · rwa [Function.update_of_ne hu] at h

/-- An undisturbed step keeps the loop to one call. -/
theorem single_step {s s' : State τ} {l : Label τ} (hs : Single s) (hl : Undisturbed s l)
    (h : Step s l s') : Single s' := by
  cases h with
  | @enter t mouse hpc hentry =>
      obtain ⟨hlistening, hinterrupted, rfl⟩ := evmouseListenEntry_true.1 hentry
      have hnone := hl t rfl hlistening hinterrupted
      -- Nobody was in the loop, so it is the caller.
      have hcaller : ∀ u, Function.update s.pc t .loop u = .loop → u = t := by
        intro u hu
        by_contra hne
        rw [Function.update_of_ne hne] at hu
        exact hnone u hu
      intro _ u v hu hv
      rw [hcaller u hu, hcaller v hv]
  | turnedAway hpc hentry =>
      rcases evmouseListenEntry_false.1 hentry with ⟨-, rfl⟩ | ⟨hlistening, -, rfl⟩
      · exact hs
      · intro hlistening'
        simp only [hlistening, Bool.false_eq_true] at hlistening'
  | goOn _ _ => exact hs
  | stop _ _ =>
      intro hlistening u v hu hv
      exact hs hlistening u v (pc_update_loop (by decide) hu) (pc_update_loop (by decide) hv)
  | leave _ =>
      intro hlistening u v hu hv
      exact hs hlistening u v (pc_update_loop (by decide) hu) (pc_update_loop (by decide) hv)
  | interrupt =>
      intro hlistening
      cases hlistening

/-- Any other step lets a second call in. -/
theorem not_single_of_disturbed {s s' : State τ} {l : Label τ} (hl : ¬Undisturbed s l)
    (h : Step s l s') : ¬Single s' := by
  simp only [Undisturbed, not_forall, not_not] at hl
  obtain ⟨t, rfl, hlistening, hinterrupted, u, hu⟩ := hl
  cases h with
  | enter hpc hentry =>
      obtain ⟨-, -, rfl⟩ := evmouseListenEntry_true.1 hentry
      have hne : u ≠ t := by
        rintro rfl
        rw [hpc] at hu
        cases hu
      intro hs
      exact hne (hs rfl u t ((Function.update_of_ne hne _ _).trans hu) (Function.update_self ..))
  | turnedAway _ hentry =>
      rcases evmouseListenEntry_false.1 hentry with ⟨hset, -⟩ | ⟨-, hset, -⟩
      · rw [hlistening] at hset
        cases hset
      · rw [hinterrupted] at hset
        cases hset

/-- A call that is to stop is told so until it looks. -/
theorem stopping_step {s s' : State τ} {l : Label τ} {t : τ} (hpc : s.pc t = .loop)
    (hstop : s.mouse.listening = false) (hl : Undisturbed s l) (ht : l ≠ .check t)
    (h : Step s l s') : s'.pc t = .loop ∧ s'.mouse.listening = false := by
  have hother : ∀ {u : τ} {v w : Pc}, s.pc u = v → v ≠ .loop →
      Function.update s.pc u w t = .loop := by
    rintro u v w hu hv
    have hne : t ≠ u := by
      rintro rfl
      exact hv (hu.symm.trans hpc)
    rwa [Function.update_of_ne hne]
  cases h with
  | @enter u mouse hidle hentry =>
      obtain ⟨hlistening, hinterrupted, -⟩ := evmouseListenEntry_true.1 hentry
      exact absurd hpc (hl u rfl hlistening hinterrupted t)
  | turnedAway _ hentry =>
      rcases evmouseListenEntry_false.1 hentry with ⟨-, rfl⟩ | ⟨-, -, rfl⟩
      · exact ⟨hpc, hstop⟩
      · exact ⟨hpc, hstop⟩
  | goOn _ _ => exact ⟨hpc, hstop⟩
  | @stop u _ _ =>
      have hne : t ≠ u := fun hu => ht (hu ▸ rfl)
      exact ⟨(Function.update_of_ne hne _ _).trans hpc, hstop⟩
  | leave hexit => exact ⟨hother hexit (by decide), hstop⟩
  | interrupt => exact ⟨hpc, rfl⟩

/-! ## Runs -/

theorem single_of_reachable {s : State τ}
    (hs : ((system τ).restrict Undisturbed).Reachable s) : Single s :=
  hs.invariant (fun s h hlistening => by subst h; cases hlistening)
    fun _ _ _ _ hsingle h => single_step hsingle h.1 h.2

/-- Along a run, a call that is to stop is told so until it looks. -/
theorem stopping_path {s s' : State τ} {ls : List (Label τ)} {t : τ}
    (hp : ((system τ).restrict Undisturbed).Path s ls s') (hpc : s.pc t = .loop)
    (hstop : s.mouse.listening = false) (ht : .check t ∉ ls) : s'.mouse.listening = false := by
  induction hp with
  | nil => exact hstop
  | cons hl _ ih =>
      obtain ⟨hhead, htail⟩ := not_or.1 fun h => ht (List.mem_cons.2 h)
      obtain ⟨hpc', hstop'⟩ := stopping_step hpc hstop hl.1 (Ne.symm hhead) hl.2
      exact ih hpc' hstop' htail

/-! ## Where an early entry comes from -/

/-- The step does not clear `interrupted` while a call in the loop is still to
stop. -/
def KeepsInterrupted (s : State τ) (l : Label τ) : Prop :=
  ∀ t, l = .listen t ∨ l = .leave t → s.mouse.listening = false → s.mouse.interrupted = true →
    ∀ u, s.pc u ≠ .loop

/-- Behind such a step, both flags are clear only if nobody is in the loop. -/
theorem keepsInterrupted_step {s s' : State τ} {l : Label τ}
    (hs : s.mouse.listening = false → s.mouse.interrupted = false → ∀ u, s.pc u ≠ .loop)
    (hl : KeepsInterrupted s l) (h : Step s l s') (hlistening : s'.mouse.listening = false)
    (hinterrupted : s'.mouse.interrupted = false) (u : τ) : s'.pc u ≠ .loop := by
  cases h with
  | enter _ hentry =>
      obtain ⟨-, -, rfl⟩ := evmouseListenEntry_true.1 hentry
      cases hlistening
  | @turnedAway t _ _ hentry =>
      rcases evmouseListenEntry_false.1 hentry with ⟨-, rfl⟩ | ⟨hclear, hset, rfl⟩
      · exact hs hlistening hinterrupted u
      · exact hl t (.inl rfl) hclear hset u
  | goOn _ _ => exact hs hlistening hinterrupted u
  | stop _ _ => exact fun hu => hs hlistening hinterrupted u (pc_update_loop (by decide) hu)
  | @leave t _ =>
      intro hu
      cases hset : s.mouse.interrupted with
      | false => exact hs hlistening hset u (pc_update_loop (by decide) hu)
      | true => exact hl t (.inr rfl) hlistening hset u (pc_update_loop (by decide) hu)
  | interrupt => cases hinterrupted

/-- As long as nobody clears it for others, `interrupted` keeps out every call
that would come too early. -/
theorem undisturbed_of_keepsInterrupted {s : State τ}
    (hs : ((system τ).restrict KeepsInterrupted).Reachable s) (l : Label τ) :
    Undisturbed s l := by
  have hinv : s.mouse.listening = false → s.mouse.interrupted = false → ∀ u, s.pc u ≠ .loop := by
    refine hs.invariant (fun s h _ _ u hu => ?_)
      fun s l s' _ hs h => keepsInterrupted_step hs h.1 h.2
    subst h
    cases hu
  exact fun t _ => hinv

theorem reachable_undisturbed {s : State τ}
    (hs : ((system τ).restrict KeepsInterrupted).Reachable s) :
    ((system τ).restrict Undisturbed).Reachable s := by
  induction hs with
  | init h => exact .init h
  | step hr h ih => exact ih.step ⟨undisturbed_of_keepsInterrupted hr _, h.2⟩

/-! ## The single loop -/

/-- **A single loop**: in every run without an entry that comes too early, at
most one call is in the loop while `listening` is set, and every call that was
in the loop at an interrupt finds `listening` cleared at its next check.  An
entry that comes too early always puts a second call into the loop, and none does
in a run in which nobody clears `interrupted` for others. -/
theorem evmouse_single_loop (τ : Type*) [DecidableEq τ] :
    (∀ s, ((system τ).restrict Undisturbed).Reachable s → Single s) ∧
    (∀ s s₁ s₂ ls t, s.pc t = .loop → Step s .interrupt s₁ →
      ((system τ).restrict Undisturbed).Path s₁ ls s₂ → .check t ∉ ls →
      evmouseIsInterrupted s₂.mouse = false) ∧
    (∀ (s : State τ) l s', Step s l s' → ¬Undisturbed s l → ¬Single s') ∧
    ∀ s, ((system τ).restrict KeepsInterrupted).Reachable s →
      Single s ∧ ∀ l, Undisturbed s l := by
  refine ⟨fun s => single_of_reachable, ?_, fun s l s' h hl => not_single_of_disturbed hl h,
    fun s hs => ⟨single_of_reachable (reachable_undisturbed hs),
      undisturbed_of_keepsInterrupted hs⟩⟩
  intro s s₁ s₂ ls t hpc hint hp ht
  cases hint with
  | interrupt => exact stopping_path hp hpc rfl ht

/-- Three calls: the first is interrupted, the second takes the interrupt for
its own, and the third enters before the first has looked. -/
theorem evmouse_two_loops : ∃ s : State (Fin 3), (system (Fin 3)).Reachable s ∧ ¬Single s := by
  have h : (system (Fin 3)).Reachable ⟨⟨false, false⟩, fun _ => .idle⟩ := .init rfl
  have h := h.step (Step.enter (t := 0) rfl rfl)
  have h := h.step Step.interrupt
  have h := h.step (Step.turnedAway (t := 1) rfl rfl)
  have h := h.step (Step.enter (t := 2) rfl rfl)
  exact ⟨_, h, fun hs => absurd (hs rfl 0 2 rfl rfl) (by decide)⟩

end CommonsC.EvMouse
