import CommonsC.EvMouse.Model
import Mathlib.Data.List.Basic

/-!
# CommonsC.EvMouse.Consumed

Interrupts of a single listener: none is lost, and none counts twice.

With one thread that listens, the run is recorded (`recorded`): what each
section turned out to do.  Between two calls `interrupted` tells whether an
interrupt came since the last one ended, and in the loop `listening` tells
whether one came since the call began (`Flags`).
-/

namespace CommonsC.EvMouse

/-! ## Recorded runs -/

/-- What a section did: a call went on to the loop or was turned away, a check
let it go on or stopped it, it ended behind the loop, or there was an
interrupt. -/
inductive Event
  | entered | turnedAway | passed | stopped | left | interrupted
  deriving DecidableEq

/-- The section of an event. -/
def Event.label : Event → Label Unit
  | .entered | .turnedAway => .listen ()
  | .passed | .stopped => .check ()
  | .left => .leave ()
  | .interrupted => .interrupt

/-- Where the listener is after an event, if it has to do with it. -/
def Event.pc : Event → Option Pc
  | .entered | .passed => some .loop
  | .turnedAway | .left => some .idle
  | .stopped => some .exit
  | .interrupted => none

/-- The section of the event runs, and the event is what it does. -/
def Happens (s : State Unit) (e : Event) (s' : State Unit) : Prop :=
  Step s e.label s' ∧ ∀ pc ∈ e.pc, s'.pc () = pc

/-- The runs with what has happened so far. -/
def recorded : TransitionSystem (State Unit × List Event) Event where
  init x := (system Unit).init x.1 ∧ x.2 = []
  step x e x' := Happens x.1 e x'.1 ∧ x'.2 = x.2 ++ [e]

theorem update_unit (pc : Unit → Pc) (t : Unit) (v : Pc) : Function.update pc t v () = v :=
  Function.update_self t v pc

/-- Every step is some event. -/
theorem exists_happens {s s' : State Unit} {l : Label Unit} (h : Step s l s') :
    ∃ e : Event, e.label = l ∧ Happens s e s' := by
  have hstep := h
  cases h with
  | @enter t _ _ _ =>
      exact ⟨.entered, rfl, hstep, by rintro _ ⟨⟩; exact update_unit s.pc t .loop⟩
  | turnedAway hpc _ => exact ⟨.turnedAway, rfl, hstep, by rintro _ ⟨⟩; exact hpc⟩
  | goOn hpc _ => exact ⟨.passed, rfl, hstep, by rintro _ ⟨⟩; exact hpc⟩
  | @stop t _ _ => exact ⟨.stopped, rfl, hstep, by rintro _ ⟨⟩; exact update_unit s.pc t .exit⟩
  | @leave t _ => exact ⟨.left, rfl, hstep, by rintro _ ⟨⟩; exact update_unit s.pc t .idle⟩
  | interrupt => exact ⟨.interrupted, rfl, hstep, nofun⟩

/-- Every run can be recorded. -/
theorem recorded_of_reachable {s : State Unit} (hs : (system Unit).Reachable s) :
    ∃ es, recorded.Reachable (s, es) := by
  induction hs with
  | init h => exact ⟨[], .init ⟨h, rfl⟩⟩
  | step _ h ih =>
      obtain ⟨es, hes⟩ := ih
      obtain ⟨e, -, he⟩ := exists_happens h
      exact ⟨es ++ [e], hes.step (l := e) ⟨he, rfl⟩⟩

/-- What an event finds, and what it leaves. -/
def Effect (s : State Unit) : Event → State Unit → Prop
  | .entered, s' =>
      (s.pc () = .idle ∧ s.mouse.listening = false ∧ s.mouse.interrupted = false) ∧
        s'.pc () = .loop ∧ s'.mouse.listening = true
  | .turnedAway, s' =>
      (s.pc () = .idle ∧ (s.mouse.listening = true ∨ s.mouse.interrupted = true)) ∧
        s'.pc () = .idle ∧ s'.mouse.listening = s.mouse.listening ∧
          (s.mouse.listening = false → s'.mouse.interrupted = false)
  | .passed, s' => (s.pc () = .loop ∧ s.mouse.listening = true) ∧ s' = s
  | .stopped, s' =>
      (s.pc () = .loop ∧ s.mouse.listening = false) ∧ s'.pc () = .exit ∧ s'.mouse = s.mouse
  | .left, s' =>
      s.pc () = .exit ∧ s'.pc () = .idle ∧ s'.mouse.listening = s.mouse.listening ∧
        s'.mouse.interrupted = false
  | .interrupted, s' =>
      s'.pc () = s.pc () ∧ s'.mouse.listening = false ∧ s'.mouse.interrupted = true

theorem Happens.effect {s s' : State Unit} {e : Event} (h : Happens s e s') : Effect s e s' := by
  obtain ⟨hstep, hpc⟩ := h
  cases e with
  | entered =>
      have hloop : s'.pc () = .loop := hpc _ rfl
      cases hstep with
      | enter hidle hentry =>
          obtain ⟨hlistening, hinterrupted, rfl⟩ := evmouseListenEntry_true.1 hentry
          exact ⟨⟨hidle, hlistening, hinterrupted⟩, hloop, rfl⟩
      | turnedAway hidle _ => cases hidle.symm.trans hloop
  | turnedAway =>
      have hidle' : s'.pc () = .idle := hpc _ rfl
      cases hstep with
      | @enter t _ _ _ => cases (update_unit s.pc t .loop).symm.trans hidle'
      | turnedAway hidle hentry =>
          rcases evmouseListenEntry_false.1 hentry with ⟨hset, rfl⟩ | ⟨hclear, hset, rfl⟩
          · exact ⟨⟨hidle, .inl hset⟩, hidle', rfl, fun h => nomatch hset.symm.trans h⟩
          · exact ⟨⟨hidle, .inr hset⟩, hidle', rfl, fun _ => rfl⟩
  | passed =>
      have hloop : s'.pc () = .loop := hpc _ rfl
      cases hstep with
      | goOn hpc' hgo => exact ⟨⟨hpc', hgo⟩, rfl⟩
      | @stop t _ _ => cases (update_unit s.pc t .exit).symm.trans hloop
  | stopped =>
      have hexit : s'.pc () = .exit := hpc _ rfl
      cases hstep with
      | goOn hpc' _ => cases hpc'.symm.trans hexit
      | stop hpc' hstop => exact ⟨⟨hpc', hstop⟩, hexit, rfl⟩
  | left =>
      cases hstep with
      | leave hexit => exact ⟨hexit, hpc _ rfl, rfl, rfl⟩
  | interrupted =>
      cases hstep with
      | interrupt => exact ⟨rfl, rfl, rfl⟩

/-! ## What has happened since -/

/-- The events behind the last one that is `mark`, from the last to the first. -/
def since (mark : Event → Bool) (es : List Event) : List Event :=
  es.reverse.takeWhile fun e => !mark e

/-- The last section of a call. -/
def Event.ends (e : Event) : Bool := e = .turnedAway || e = .left

/-- The first section of a call that goes on to the loop. -/
def Event.enters (e : Event) : Bool := e = .entered

theorem since_append (mark : Event → Bool) (es : List Event) (e : Event) :
    since mark (es ++ [e]) = if mark e then [] else e :: since mark es := by
  rw [since, List.reverse_append, List.reverse_singleton, List.singleton_append,
    List.takeWhile_cons, since]
  cases mark e <;> rfl

/-- What the flags say about what has happened. -/
def Flags (s : State Unit) (es : List Event) : Prop :=
  match s.pc () with
  | .idle => s.mouse.listening = false ∧
      (s.mouse.interrupted = true ↔ .interrupted ∈ since Event.ends es)
  | .loop => s.mouse.listening = false ↔ .interrupted ∈ since Event.enters es
  | .exit => s.mouse.listening = false

section

variable {s : State Unit} {es : List Event}

theorem flags_idle (h : s.pc () = .idle) :
    Flags s es ↔ s.mouse.listening = false ∧
      (s.mouse.interrupted = true ↔ .interrupted ∈ since Event.ends es) := by
  rw [Flags, h]

theorem flags_loop (h : s.pc () = .loop) :
    Flags s es ↔ (s.mouse.listening = false ↔ .interrupted ∈ since Event.enters es) := by
  rw [Flags, h]

theorem flags_exit (h : s.pc () = .exit) : Flags s es ↔ s.mouse.listening = false := by
  rw [Flags, h]

end

/-- The flags keep up with what happens. -/
theorem flags_step {s s' : State Unit} {es : List Event} {e : Event} (h : Flags s es)
    (he : Happens s e s') : Flags s' (es ++ [e]) := by
  have heffect := he.effect
  cases e with
  | entered =>
      obtain ⟨-, hloop, hlistening⟩ := heffect
      rw [flags_loop hloop, since_append, hlistening]
      exact iff_of_false nofun nofun
  | turnedAway =>
      obtain ⟨⟨hidle, -⟩, hidle', hlistening, hconsumed⟩ := heffect
      rw [flags_idle hidle] at h
      rw [flags_idle hidle', since_append, hlistening, hconsumed h.1]
      exact ⟨h.1, iff_of_false nofun nofun⟩
  | passed =>
      obtain ⟨⟨hloop, -⟩, rfl⟩ := heffect
      rw [flags_loop hloop] at h ⊢
      rw [h, since_append]
      simp [Event.enters]
  | stopped =>
      obtain ⟨⟨-, hlistening⟩, hexit, hmouse⟩ := heffect
      rw [flags_exit hexit, hmouse, hlistening]
  | left =>
      obtain ⟨hexit, hidle, hlistening, hinterrupted⟩ := heffect
      rw [flags_exit hexit] at h
      rw [flags_idle hidle, since_append, hlistening, hinterrupted]
      exact ⟨h, iff_of_false nofun nofun⟩
  | interrupted =>
      obtain ⟨hpc, hlistening, hinterrupted⟩ := heffect
      rw [Flags, hpc]
      cases s.pc () with
      | idle => exact ⟨hlistening, iff_of_true hinterrupted (by simp [since_append, Event.ends])⟩
      | loop => exact iff_of_true hlistening (by simp [since_append, Event.enters])
      | exit => exact hlistening

/-! ## Whole runs -/

/-- What a listener may expect of an event, after the events `before`. -/
def Event.Fair (before : List Event) : Event → Prop
  | .entered => .interrupted ∉ since Event.ends before
  | .turnedAway => .interrupted ∈ since Event.ends before
  | .passed => .interrupted ∉ since Event.enters before
  | .stopped => .interrupted ∈ since Event.enters before
  | .left | .interrupted => True

/-- An event is what has happened before it makes it. -/
theorem fair_of_happens {s s' : State Unit} {es : List Event} {e : Event} (h : Flags s es)
    (he : Happens s e s') : e.Fair es := by
  have heffect := he.effect
  cases e with
  | entered =>
      obtain ⟨⟨hidle, -, hinterrupted⟩, -⟩ := heffect
      rw [flags_idle hidle] at h
      rw [Event.Fair, ← h.2, hinterrupted]
      exact Bool.false_ne_true
  | turnedAway =>
      obtain ⟨⟨hidle, hset⟩, -⟩ := heffect
      rw [flags_idle hidle] at h
      rw [h.1] at hset
      exact h.2.1 (hset.resolve_left Bool.false_ne_true)
  | passed =>
      obtain ⟨⟨hloop, hlistening⟩, -⟩ := heffect
      rw [flags_loop hloop] at h
      rw [Event.Fair, ← h, hlistening]
      exact nofun
  | stopped =>
      obtain ⟨⟨hloop, hlistening⟩, -⟩ := heffect
      rw [flags_loop hloop] at h
      exact h.1 hlistening
  | left => trivial
  | interrupted => trivial

theorem flags_of_reachable {x : State Unit × List Event} (hx : recorded.Reachable x) :
    Flags x.1 x.2 ∧ ∀ before e after, x.2 = before ++ e :: after → e.Fair before := by
  refine hx.invariant (P := fun x => Flags x.1 x.2 ∧
    ∀ before e after, x.2 = before ++ e :: after → e.Fair before) ?_ ?_
  · rintro ⟨s, es⟩ ⟨rfl, rfl⟩
    refine ⟨⟨rfl, iff_of_false nofun nofun⟩, fun before e after heq => ?_⟩
    simp at heq
  · rintro ⟨s, es⟩ e ⟨s', es'⟩ - ⟨hflags, hfair⟩ ⟨he, rfl⟩
    refine ⟨flags_step hflags he, fun before e' after heq => ?_⟩
    rcases List.eq_nil_or_concat' after with rfl | ⟨after, last, rfl⟩
    · obtain ⟨rfl, hlast⟩ := List.append_inj' heq rfl
      cases hlast
      exact fair_of_happens hflags he
    · rw [← List.cons_append, ← List.append_assoc] at heq
      exact hfair before e' after (List.append_inj' heq rfl).1

/-- **Interrupts are honoured and consumed once**: in every run with one
listener, a call is turned away exactly if an interrupt came after the last
section of the call before, and in the loop a check lets it go on exactly if
none came since it entered. -/
theorem evmouse_interrupts_consumed :
    (∀ s, (system Unit).Reachable s → ∃ es, recorded.Reachable (s, es)) ∧
    ∀ s es, recorded.Reachable (s, es) → ∀ before e after, es = before ++ e :: after →
      (e.label = .listen () →
        (e = .turnedAway ↔ .interrupted ∈ since Event.ends before)) ∧
      (e.label = .check () →
        (e = .passed ↔ .interrupted ∉ since Event.enters before)) := by
  refine ⟨fun s => recorded_of_reachable, fun s es hreach before e after heq => ?_⟩
  have hfair := (flags_of_reachable hreach).2 before e after heq
  cases e with
  | entered => exact ⟨fun _ => iff_of_false nofun hfair, nofun⟩
  | turnedAway => exact ⟨fun _ => iff_of_true rfl hfair, nofun⟩
  | passed => exact ⟨nofun, fun _ => iff_of_true rfl hfair⟩
  | stopped => exact ⟨nofun, fun _ => iff_of_false nofun (not_not.2 hfair)⟩
  | left => exact ⟨nofun, nofun⟩
  | interrupted => exact ⟨nofun, nofun⟩

end CommonsC.EvMouse
