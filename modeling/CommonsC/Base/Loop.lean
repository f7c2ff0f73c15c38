import Mathlib.Algebra.Order.Ring.Int

/-!
# CommonsC.Base.Loop

Counting loops over integers whose rounds may fail.

`Loop.up lo hi body` is `for (i = lo; i < hi; i++)`, and `Loop.down hi lo body`
is `for (i = hi; i >= lo; i--)`; they stop at the first failure.  Each has a
rule for what an invariant gives when the loop succeeds (`of_up`) and one for
rounds that cannot fail (`up_ok`, `down_ok`).  `up_up` flattens a loop over the
rows and columns of a table.
-/

namespace Loop

variable {ε σ : Type*} {body : Int → σ → Except ε σ} {P : Int → σ → Prop} {s s' : σ}

/-! ## Sequences -/

/-- A sequence that succeeds succeeds in both its parts. -/
theorem of_bind.{u} {σ τ : Type u} {x : Except ε σ} {f : σ → Except ε τ} {r : τ}
    (h : x >>= f = .ok r) : ∃ s, x = .ok s ∧ f s = .ok r := by
  cases x with
  | error e => cases h
  | ok s => exact ⟨s, rfl, h⟩

/-! ## Counting up -/

/-- `n` rounds, from `i` on upwards. -/
def upFrom (body : Int → σ → Except ε σ) : Nat → Int → σ → Except ε σ
  | 0, _, s => .ok s
  | n + 1, i, s => do
      let s ← body i s
      upFrom body n (i + 1) s

/-- `for (i = lo; i < hi; i++)`. -/
def up (lo hi : Int) (body : Int → σ → Except ε σ) (s : σ) : Except ε σ :=
  upFrom body (hi - lo).toNat lo s

theorem up_of_le {lo hi : Int} (h : hi ≤ lo) : up lo hi body s = .ok s := by
  have hzero : (hi - lo).toNat = 0 := by omega
  rw [up, hzero, upFrom]

theorem up_of_lt {lo hi : Int} (h : lo < hi) :
    up lo hi body s = (body lo s).bind (up (lo + 1) hi body) := by
  obtain ⟨n, hn⟩ : ∃ n, (hi - lo).toNat = n + 1 := ⟨(hi - lo).toNat - 1, by omega⟩
  have hrest : (hi - (lo + 1)).toNat = n := by omega
  rw [up, hn, upFrom, ← hrest]
  rfl

/-- Induction on the rounds that a loop has to go. -/
theorem up_induction (hi : Int) {motive : Int → Prop} (stop : ∀ lo, hi ≤ lo → motive lo)
    (round : ∀ lo, lo < hi → motive (lo + 1) → motive lo) (lo : Int) : motive lo := by
  induction hn : (hi - lo).toNat generalizing lo with
  | zero => exact stop lo (by omega)
  | succ n ih => exact round lo (by omega) (ih (lo + 1) (by omega))

/-- What the rounds keep holds at the end of a loop that does not fail. -/
theorem of_up {lo hi : Int} (hle : lo ≤ hi) (hinit : P lo s)
    (hstep : ∀ i s s', lo ≤ i → i < hi → P i s → body i s = .ok s' → P (i + 1) s')
    (hrun : up lo hi body s = .ok s') : P hi s' := by
  induction lo using up_induction hi generalizing s with
  | stop lo h =>
      rw [up_of_le h] at hrun
      cases hrun
      rwa [Int.le_antisymm h hle]
  | round lo h ih =>
      rw [up_of_lt h] at hrun
      cases hbody : body lo s with
      | error e =>
          rw [hbody] at hrun
          cases hrun
      | ok t =>
          rw [hbody] at hrun
          exact ih (Int.add_one_le_of_lt h) (hstep lo s t (Int.le_refl _) h hinit hbody)
            (fun i s s' hlo => hstep i s s' (by omega)) hrun

/-- What every round keeps, the loop keeps. -/
theorem up_keeps {P : σ → Prop} {lo hi : Int} (hinit : P s)
    (hstep : ∀ i s s', lo ≤ i → i < hi → P s → body i s = .ok s' → P s')
    (hrun : up lo hi body s = .ok s') : P s' := by
  rcases Int.le_total lo hi with hle | hle
  · exact of_up (P := fun _ => P) hle hinit hstep hrun
  · rw [up_of_le hle] at hrun
    cases hrun
    exact hinit

/-- Rounds that change nothing. -/
theorem up_noop {lo hi : Int} (h : ∀ i, lo ≤ i → i < hi → body i s = .ok s) :
    up lo hi body s = .ok s := by
  induction lo using up_induction hi with
  | stop lo hle => exact up_of_le hle
  | round lo hlt ih =>
      rw [up_of_lt hlt, h lo (Int.le_refl lo) hlt]
      exact ih fun i hlo => h i (by omega)

/-- A loop does not fail if its rounds keep what keeps them from failing. -/
theorem up_ok {lo hi : Int} (hle : lo ≤ hi) (hinit : P lo s)
    (hstep : ∀ i s, lo ≤ i → i < hi → P i s → ∃ s', body i s = .ok s' ∧ P (i + 1) s') :
    ∃ s', up lo hi body s = .ok s' ∧ P hi s' := by
  induction lo using up_induction hi generalizing s with
  | stop lo h =>
      rw [up_of_le h, ← Int.le_antisymm hle h]
      exact ⟨s, rfl, hinit⟩
  | round lo h ih =>
      obtain ⟨t, hbody, ht⟩ := hstep lo s (Int.le_refl _) h hinit
      rw [up_of_lt h, hbody]
      exact ih (Int.add_one_le_of_lt h) ht fun i s hlo => hstep i s (by omega)

/-- A loop whose rounds do not fail does not fail. -/
theorem up_total {lo hi : Int} (h : ∀ i s, ∃ s', body i s = .ok s') :
    ∃ s', up lo hi body s = .ok s' := by
  rcases Int.le_total lo hi with hle | hle
  · obtain ⟨s', hrun, -⟩ := up_ok (P := fun _ _ => True) hle trivial fun i s _ _ _ =>
      (h i s).imp fun _ hbody => ⟨hbody, trivial⟩
    exact ⟨s', hrun⟩
  · exact ⟨s, up_of_le hle⟩

/-- A loop can be cut in two. -/
theorem up_append {lo mid hi : Int} (hlo : lo ≤ mid) (hhi : mid ≤ hi) :
    up lo hi body s = (up lo mid body s).bind (up mid hi body) := by
  induction lo using up_induction mid generalizing s with
  | stop lo h =>
      rw [up_of_le h, Int.le_antisymm hlo h]
      rfl
  | round lo h ih =>
      rw [up_of_lt h, up_of_lt (Int.lt_of_lt_of_le h hhi)]
      cases body lo s with
      | error e => rfl
      | ok t => exact ih (Int.add_one_le_of_lt h)

/-- Only the distance between index and counter matters. -/
theorem up_shift (k lo hi : Int) :
    up lo hi (fun i => body (k + i)) s = up (k + lo) (k + hi) body s := by
  induction lo using up_induction hi generalizing s with
  | stop lo h => rw [up_of_le h, up_of_le (by omega)]
  | round lo h ih =>
      rw [up_of_lt h, up_of_lt (by omega)]
      cases body (k + lo) s with
      | error e => rfl
      | ok t =>
          rw [Int.add_assoc]
          exact ih

/-- A loop over rows and columns is a loop over positions. -/
theorem up_up {cols : Int} (hcols : 0 ≤ cols) {lo hi : Int} (hle : lo ≤ hi) :
    up lo hi (fun row => up 0 cols fun col => body (row * cols + col)) s =
      up (lo * cols) (hi * cols) body s := by
  induction lo using up_induction hi generalizing s with
  | stop lo h => rw [up_of_le h, up_of_le (Int.mul_le_mul_of_nonneg_right h hcols)]
  | round lo h ih =>
      have hnext : lo * cols ≤ (lo + 1) * cols :=
        Int.mul_le_mul_of_nonneg_right (by omega) hcols
      rw [up_of_lt h, up_append hnext (Int.mul_le_mul_of_nonneg_right h hcols), up_shift,
        Int.add_zero, Int.add_mul, Int.one_mul]
      cases up (lo * cols) (lo * cols + cols) body s with
      | error e => rfl
      | ok t =>
          have := ih (Int.add_one_le_of_lt h) (s := t)
          rwa [Int.add_mul, Int.one_mul] at this

/-! ## Leaving early -/

/-- The state of a loop that may be left early, which carries its state out as
an error. -/
def Ends (P : σ → Prop) : Except σ σ → Prop
  | .ok s => P s
  | .error s => P s

/-- What every round keeps, the loop keeps, also when it is left early. -/
theorem up_ends {body : Int → σ → Except σ σ} {P : σ → Prop} {lo hi : Int} (hinit : P s)
    (hstep : ∀ i s, lo ≤ i → i < hi → P s → Ends P (body i s)) : Ends P (up lo hi body s) := by
  induction lo using up_induction hi generalizing s with
  | stop lo h =>
      rw [up_of_le h]
      exact hinit
  | round lo h ih =>
      have hround := hstep lo s (Int.le_refl lo) h hinit
      rw [up_of_lt h]
      cases hbody : body lo s with
      | error t =>
          rw [hbody] at hround
          exact hround
      | ok t =>
          rw [hbody] at hround
          exact ih hround fun i s hlo => hstep i s (by omega)

/-! ## Counting down -/

/-- `n` rounds, from `i` on downwards. -/
def downFrom (body : Int → σ → Except ε σ) : Nat → Int → σ → Except ε σ
  | 0, _, s => .ok s
  | n + 1, i, s => do
      let s ← body i s
      downFrom body n (i - 1) s

/-- `for (i = hi; i >= lo; i--)`. -/
def down (hi lo : Int) (body : Int → σ → Except ε σ) (s : σ) : Except ε σ :=
  downFrom body (hi + 1 - lo).toNat hi s

/-- A loop does not fail if its rounds keep what keeps them from failing.
Nothing is done when there is no round. -/
theorem down_ok {hi lo : Int} (hle : lo ≤ hi + 1) (hinit : P hi s)
    (hstep : ∀ i s, lo ≤ i → i ≤ hi → P i s → ∃ s', body i s = .ok s' ∧ P (i - 1) s') :
    ∃ s', down hi lo body s = .ok s' ∧ P (lo - 1) s' := by
  rw [down]
  induction hn : (hi + 1 - lo).toNat generalizing hi s with
  | zero =>
      have hhi : hi = lo - 1 := by omega
      exact ⟨s, rfl, hhi ▸ hinit⟩
  | succ n ih =>
      obtain ⟨t, hbody, ht⟩ := hstep hi s (by omega) (Int.le_refl _) hinit
      obtain ⟨s', hrun, hs'⟩ :=
        ih (by omega) ht (fun i s hlo hhi => hstep i s hlo (by omega)) (by omega)
      refine ⟨s', ?_, hs'⟩
      rw [downFrom, hbody]
      exact hrun

/-- What the rounds keep holds at the end of a loop that does not fail, at the
last index, or at the first if there is no round. -/
theorem of_down {hi lo : Int} (hinit : P hi s)
    (hstep : ∀ i s s', lo ≤ i → i ≤ hi → P i s → body i s = .ok s' → P (i - 1) s')
    (hrun : down hi lo body s = .ok s') : P (min hi (lo - 1)) s' := by
  rw [down] at hrun
  generalize hn : (hi + 1 - lo).toNat = n at hrun
  induction n generalizing hi s with
  | zero =>
      cases hrun
      have hmin : min hi (lo - 1) = hi := by omega
      rwa [hmin]
  | succ n ih =>
      obtain ⟨t, hbody, hrun⟩ := of_bind hrun
      have hmin : min hi (lo - 1) = min (hi - 1) (lo - 1) := by omega
      rw [hmin]
      exact ih (hstep hi s t (by omega) (Int.le_refl hi) hinit hbody)
        (fun i s s' hlo hhi => hstep i s s' hlo (by omega)) (by omega) hrun

/-- What every round keeps, the loop keeps. -/
theorem down_keeps {P : σ → Prop} {hi lo : Int} (hinit : P s)
    (hstep : ∀ i s s', lo ≤ i → i ≤ hi → P s → body i s = .ok s' → P s')
    (hrun : down hi lo body s = .ok s') : P s' :=
  of_down (P := fun _ => P) hinit hstep hrun

theorem down_of_lt {hi lo : Int} (h : hi < lo) : down hi lo body s = .ok s := by
  have hzero : (hi + 1 - lo).toNat = 0 := by omega
  rw [down, hzero, downFrom]

/-- A loop whose rounds do not fail does not fail. -/
theorem down_total {hi lo : Int} (h : ∀ i s, ∃ s', body i s = .ok s') :
    ∃ s', down hi lo body s = .ok s' := by
  by_cases hle : lo ≤ hi + 1
  · obtain ⟨s', hrun, -⟩ := down_ok (P := fun _ _ => True) hle trivial fun i s _ _ _ =>
      (h i s).imp fun _ hbody => ⟨hbody, trivial⟩
    exact ⟨s', hrun⟩
  · exact ⟨s, down_of_lt (by omega)⟩

end Loop
