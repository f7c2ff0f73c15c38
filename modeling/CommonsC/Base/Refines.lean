import CommonsC.Base.Loop

/-!
# CommonsC.Base.Refines

When a program that can fail does what another one does.

`Refines R E x y` says that `x` returns where `y` does, with results that `R`
relates, and fails where `y` fails, with errors that `E` relates.  So `x` has no
failures of its own.

There is a rule for each way to put programs together, and two programs of the
same shape are related part by part.
-/

section

universe u

variable {ε δ : Type*} {α α' β β' : Type u}

/-- `x` does what `y` does. -/
def Refines (R : α → β → Prop) (E : δ → ε → Prop) : Except δ α → Except ε β → Prop
  | .ok a, .ok b => R a b
  | .error e, .error e' => E e e'
  | _, _ => False

namespace Refines

variable {R : α → β → Prop} {S : α' → β' → Prop} {E : δ → ε → Prop} {x : Except δ α}
  {y : Except ε β}

theorem ok {a : α} {b : β} (h : R a b) : Refines R E (.ok a) (.ok b) := h

theorem error {e : δ} {e' : ε} (h : E e e') : Refines R E (.error e) (.error e') := h

theorem imp {T : α → β → Prop} (h : Refines R E x y) (hRT : ∀ a b, R a b → T a b) :
    Refines T E x y := by
  cases x <;> cases y
  · exact h
  · exact h.elim
  · exact h.elim
  · exact hRT _ _ h

/-- What `x` returns, where `y` returns. -/
theorem of_ok {b : β} (h : Refines R E x (.ok b)) : ∃ a, x = .ok a ∧ R a b := by
  cases x with
  | ok a => exact ⟨a, rfl, h⟩
  | error e => exact h.elim

/-- Sequences. -/
theorem bind {k : α → Except δ α'} {l : β → Except ε β'} (h : Refines R E x y)
    (hnext : ∀ a b, R a b → Refines S E (k a) (l b)) :
    Refines S E (x >>= k) (y >>= l) := by
  cases x with
  | ok a =>
      cases y with
      | ok b => exact hnext a b h
      | error e => exact h.elim
  | error e =>
      cases y with
      | ok b => exact h.elim
      | error e' => exact h

/-- A sequence whose first part is the same. -/
theorem bind_same {γ : Type u} {fail : ε → δ} (hfail : ∀ e, E (fail e) e) (z : Except ε γ)
    {k : γ → Except δ α'} {l : γ → Except ε β'}
    (hnext : ∀ c, z = .ok c → Refines S E (k c) (l c)) :
    Refines S E (z.mapError fail >>= k) (z >>= l) := by
  cases z with
  | ok c => exact hnext c rfl
  | error e => exact hfail e

/-- A last part that cannot fail. -/
theorem wrap {T : α' → β → Prop} {f : α → α'} (h : Refines R E x y)
    (hf : ∀ a b, R a b → T (f a) b) : Refines T E (x >>= fun a => .ok (f a)) y := by
  cases x with
  | ok a =>
      cases y with
      | ok b => exact hf a b h
      | error e => exact h.elim
  | error e =>
      cases y with
      | ok b => exact h.elim
      | error e' => exact h

/-- A last part, as a function on what is returned. -/
theorem map {f : α → α'} {g : β → β'} (h : Refines R E x y)
    (hf : ∀ a b, R a b → S (f a) (g b)) :
    Refines S E (x >>= fun a => .ok (f a)) (y.map g) := by
  cases x with
  | ok a =>
      cases y with
      | ok b => exact hf a b h
      | error e => exact h.elim
  | error e =>
      cases y with
      | ok b => exact h.elim
      | error e' => exact h

/-- A function on what `y` returns. -/
theorem map_right {T : α → β' → Prop} {g : β → β'} (h : Refines R E x y)
    (hg : ∀ a b, R a b → T a (g b)) : Refines T E x (y.map g) := by
  cases x with
  | ok a =>
      cases y with
      | ok b => exact hg a b h
      | error e => exact h.elim
  | error e =>
      cases y with
      | ok b => exact h.elim
      | error e' => exact h

/-- Both take the same branch. -/
theorem ite {c : Prop} [Decidable c] {x' : Except δ α} {y' : Except ε β}
    (hthen : c → Refines R E x y) (helse : ¬c → Refines R E x' y') :
    Refines R E (if c then x else x') (if c then y else y') := by
  by_cases hc : c
  · rw [if_pos hc, if_pos hc]
    exact hthen hc
  · rw [if_neg hc, if_neg hc]
    exact helse hc

/-- Lists of steps. -/
theorem foldlM {γ : Type*} {body : α → γ → Except δ α} {body' : β → γ → Except ε β} (cs : List γ)
    {a : α} {b : β} (h : R a b)
    (hstep : ∀ c ∈ cs, ∀ a b, R a b → Refines R E (body a c) (body' b c)) :
    Refines R E (cs.foldlM body a) (cs.foldlM body' b) := by
  induction cs generalizing a b with
  | nil => exact ok h
  | cons c cs ih =>
      rw [List.foldlM_cons, List.foldlM_cons]
      exact (hstep c List.mem_cons_self a b h).bind fun a b h =>
        ih h fun d hd => hstep d (List.mem_cons_of_mem c hd)

section Loops

variable {body : Int → α → Except δ α} {body' : Int → β → Except ε β} {a : α} {b : β}

/-- Loops that count up. -/
theorem up (lo hi : Int) (h : R a b)
    (hround : ∀ i a b, R a b → Refines R E (body i a) (body' i b)) :
    Refines R E (Loop.up lo hi body a) (Loop.up lo hi body' b) := by
  induction lo using Loop.up_induction hi generalizing a b with
  | stop lo hle =>
      rw [Loop.up_of_le hle, Loop.up_of_le hle]
      exact ok h
  | round lo hlt ih =>
      rw [Loop.up_of_lt hlt, Loop.up_of_lt hlt]
      exact (hround lo a b h).bind fun a b h => ih h

/-- Loops that count down. -/
theorem down (hi lo : Int) (h : R a b)
    (hround : ∀ i a b, R a b → Refines R E (body i a) (body' i b)) :
    Refines R E (Loop.down hi lo body a) (Loop.down hi lo body' b) := by
  rw [Loop.down, Loop.down]
  generalize (hi + 1 - lo).toNat = n
  induction n generalizing hi a b with
  | zero => exact ok h
  | succ n ih => exact (hround hi a b h).bind fun a b h => ih (hi - 1) h

end Loops

end Refines

end
