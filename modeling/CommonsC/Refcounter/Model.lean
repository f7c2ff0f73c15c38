import CommonsC.Base.Transition
import Mathlib.Data.Set.Card

/-!
# CommonsC.Refcounter.Model

The reference counter of `util/refcounter/refcounter.h`.

`refcounter_ref` and `refcounter_unref` hold the lock for one line, which is one
step of the system.  What they do around it has steps of its own: the assertion
of `refcounter_ref` looks at the counter before, and `refcounter_unref` returns
after it has given the lock back.
-/

namespace CommonsC

/-- `refcounter_t`. -/
structure Refcounter where
  counter : Int
  deriving DecidableEq

namespace Refcounter

/-! ## The counter -/

/-- `refcounter_init`. -/
def refcounterInit : Refcounter := ⟨1⟩

/-- The assertion of `refcounter_destroy`. -/
def refcounterDestroyAsserts (counter : Refcounter) : Bool := counter.counter == 0

/-- The assertion of `refcounter_ref`. -/
def refcounterRefAsserts (counter : Refcounter) : Bool := counter.counter > 0

/-- `refcounter_ref` behind the lock. -/
def refcounterRef (counter : Refcounter) : Refcounter := ⟨counter.counter + 1⟩

/-- `refcounter_unref` behind the lock, and `remaining`. -/
def refcounterUnref (counter : Refcounter) : Refcounter × Int :=
  (⟨counter.counter - 1⟩, counter.counter - 1)

/-! ## The holders -/

/-- Where a holder is: there is none yet, one is about to be made, it has its
reference, it is in `refcounter_ref` for a new one, it is in `refcounter_unref`
behind the lock, or that has returned. -/
inductive Pc (η : Type*)
  | absent
  | promised
  | holding
  | ref (new : η)
  | unref (remaining : Int)
  | returned (last : Bool)

/-- The reference is outstanding. -/
def Pc.holds {η : Type*} : Pc η → Bool
  | .holding | .ref _ => true
  | .absent | .promised | .unref _ | .returned _ => false

/-- The counter, and where every holder is. -/
structure State (η : Type*) where
  counter : Refcounter
  pc : η → Pc η

/-- The assertion of `refcounter_ref`, its section, the section of
`refcounter_unref` and its return, with the holder that calls. -/
inductive Label (η : Type*)
  | check (h new : η)
  | ref (h : η)
  | unref (h : η)
  | ret (h : η)

variable {η : Type*} [DecidableEq η]

/-- What holders do.  A holder calls `refcounter_ref` for one that is not there
yet, and `refcounter_unref` once. -/
inductive Step : State η → Label η → State η → Prop
  | check {s : State η} {h new : η} :
      s.pc h = .holding → s.pc new = .absent →
      Step s (.check h new)
        { s with pc := Function.update (Function.update s.pc new .promised) h (.ref new) }
  | ref {s : State η} {h new : η} :
      s.pc h = .ref new →
      Step s (.ref h)
        { counter := refcounterRef s.counter
          pc := Function.update (Function.update s.pc h .holding) new .holding }
  | unref {s : State η} {h : η} {counter : Refcounter} {remaining : Int} :
      s.pc h = .holding → refcounterUnref s.counter = (counter, remaining) →
      Step s (.unref h) { counter, pc := Function.update s.pc h (.unref remaining) }
  | ret {s : State η} {h : η} {remaining : Int} :
      s.pc h = .unref remaining →
      Step s (.ret h) { s with pc := Function.update s.pc h (.returned (remaining == 0)) }

/-- At first there is one holder. -/
def initial (first : η) : State η where
  counter := refcounterInit
  pc := Function.update (fun _ => .absent) first .holding

/-- A counter with the holders `η`. -/
def system (η : Type*) [DecidableEq η] : TransitionSystem (State η) (Label η) where
  init s := ∃ first, s = initial first
  step := Step

/-- The outstanding holders. -/
def holders (pc : η → Pc η) : Set η := { h | (pc h).holds = true }

/-- The holder's `refcounter_unref` returns true. -/
def Last (s : State η) (h : η) : Prop := s.pc h = .unref 0 ∨ s.pc h = .returned true

/-- Fewer than `2 ^ 31` holders are outstanding after the step. -/
def Below (s : State η) (l : Label η) : Prop :=
  ∀ h, l = .ref h → (holders s.pc).ncard + 1 < 2 ^ 31

/-! ### Outstanding holders after an update -/

section

variable {pc : η → Pc η} {h : η} {v : Pc η}

theorem mem_holders_update {x : η} :
    x ∈ holders (Function.update pc h v) ↔
      if x = h then v.holds = true else x ∈ holders pc := by
  rw [holders, Set.mem_ofPred_eq, Function.update_apply]
  split <;> rfl

theorem holders_update_same (hv : v.holds = (pc h).holds) :
    holders (Function.update pc h v) = holders pc := by
  ext x
  rw [mem_holders_update]
  split
  · next hx => rw [hx, hv]; rfl
  · rfl

theorem holders_update_insert (hv : v.holds = true) :
    holders (Function.update pc h v) = insert h (holders pc) := by
  ext x
  rw [mem_holders_update, Set.mem_insert_iff]
  split
  · next hx => exact iff_of_true hv (.inl hx)
  · next hx => exact (or_iff_right hx).symm

theorem not_mem_holders_update (hv : v.holds = false) :
    h ∉ holders (Function.update pc h v) := by
  rw [mem_holders_update, if_pos rfl, hv]
  exact Bool.false_ne_true

theorem insert_holders_update (hh : (pc h).holds = true) :
    insert h (holders (Function.update pc h v)) = holders pc := by
  ext x
  rw [Set.mem_insert_iff, mem_holders_update]
  by_cases hx : x = h
  · exact iff_of_true (.inl hx) (hx ▸ hh)
  · rw [if_neg hx, or_iff_right hx]

end

end Refcounter

end CommonsC
