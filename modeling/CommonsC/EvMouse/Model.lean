import CommonsC.Base.Transition
import Mathlib.Logic.Function.Basic

/-!
# CommonsC.EvMouse.Model

The two flags of `device/evmouse/evmouse.c`.

`evmouse_listen` and `evmouse_interrupt` hold `mouse->lock` for a few lines at a
time.  Each of these sections is one function on the flags and one step of the
system: the entry of `evmouse_listen`, the check of its loop
(`evmouse_is_interrupted`), its exit, and the interrupt.  The work of a round of
the loop touches no flag and is no step.
-/

namespace CommonsC.EvMouse

/-! ## The flags -/

/-- The flags of `evmouse_t`. -/
structure Evmouse where
  listening : Bool
  interrupted : Bool
  deriving DecidableEq

/-- `evmouse_open_default`: everything is zero. -/
def evmouseOpenDefault : Evmouse := ⟨false, false⟩

/-- The entry of `evmouse_listen`, and whether it goes on to the loop. -/
def evmouseListenEntry (mouse : Evmouse) : Evmouse × Bool :=
  if mouse.listening then (mouse, false)
  else if mouse.interrupted then ({ mouse with interrupted := false }, false)
  else ({ mouse with listening := true }, true)

/-- `evmouse_is_interrupted`: whether the loop goes on. -/
def evmouseIsInterrupted (mouse : Evmouse) : Bool := mouse.listening

/-- The exit of `evmouse_listen`. -/
def evmouseListenExit (mouse : Evmouse) : Evmouse := { mouse with interrupted := false }

/-- `evmouse_interrupt`. -/
def evmouseInterrupt (mouse : Evmouse) : Evmouse :=
  { mouse with interrupted := true, listening := false }

/-! ## The threads -/

/-- Where a thread is: in no call, in the loop of `evmouse_listen`, or behind it. -/
inductive Pc
  | idle
  | loop
  | exit
  deriving DecidableEq

/-- The flags, and where every thread is. -/
structure State (τ : Type*) where
  mouse : Evmouse
  pc : τ → Pc

/-- The sections, with the thread that calls `evmouse_listen`.  Who interrupts
does not matter. -/
inductive Label (τ : Type*)
  | listen (t : τ)
  | check (t : τ)
  | leave (t : τ)
  | interrupt

variable {τ : Type*} [DecidableEq τ]

/-- What the sections do. -/
inductive Step : State τ → Label τ → State τ → Prop
  | enter {s : State τ} {t : τ} {mouse : Evmouse} :
      s.pc t = .idle → evmouseListenEntry s.mouse = (mouse, true) →
      Step s (.listen t) { mouse, pc := Function.update s.pc t .loop }
  | turnedAway {s : State τ} {t : τ} {mouse : Evmouse} :
      s.pc t = .idle → evmouseListenEntry s.mouse = (mouse, false) →
      Step s (.listen t) { s with mouse }
  | goOn {s : State τ} {t : τ} :
      s.pc t = .loop → evmouseIsInterrupted s.mouse = true → Step s (.check t) s
  | stop {s : State τ} {t : τ} :
      s.pc t = .loop → evmouseIsInterrupted s.mouse = false →
      Step s (.check t) { s with pc := Function.update s.pc t .exit }
  | leave {s : State τ} {t : τ} :
      s.pc t = .exit →
      Step s (.leave t)
        { mouse := evmouseListenExit s.mouse, pc := Function.update s.pc t .idle }
  | interrupt {s : State τ} : Step s .interrupt { s with mouse := evmouseInterrupt s.mouse }

/-- The mouse and the threads `τ`: at first no call is under way. -/
def system (τ : Type*) [DecidableEq τ] : TransitionSystem (State τ) (Label τ) where
  init s := s = { mouse := evmouseOpenDefault, pc := fun _ => .idle }
  step := Step

/-- When the entry goes on to the loop. -/
theorem evmouseListenEntry_true {mouse mouse' : Evmouse} :
    evmouseListenEntry mouse = (mouse', true) ↔
      mouse.listening = false ∧ mouse.interrupted = false ∧
        mouse' = { mouse with listening := true } := by
  obtain ⟨listening, interrupted⟩ := mouse
  cases listening <;> cases interrupted <;> simp [evmouseListenEntry, eq_comm]

/-- When it does not. -/
theorem evmouseListenEntry_false {mouse mouse' : Evmouse} :
    evmouseListenEntry mouse = (mouse', false) ↔
      (mouse.listening = true ∧ mouse' = mouse) ∨
        (mouse.listening = false ∧ mouse.interrupted = true ∧
          mouse' = { mouse with interrupted := false }) := by
  obtain ⟨listening, interrupted⟩ := mouse
  cases listening <;> cases interrupted <;> simp [evmouseListenEntry, eq_comm]

end CommonsC.EvMouse
