import CommonsC.EvMouse.Model
import Mathlib.Data.List.Basic
import Mathlib.Order.Lattice.Nat

/-!
# CommonsC.EvMouse.Dispatch

The loop of `evmouse_listen` (`device/evmouse/evmouse.c`), with the events that
it reads.

The kernel has a queue of events for every descriptor, and drops what is in it
when it overruns.  A round of the loop selects the descriptors that are readable,
and reads one event from each; what the event says of a mouse goes to the
listener.  One thread listens; devices are unplugged, queues overrun, and
interrupts come, at any time.

`Delivers` says where every event is that has arrived: the listener has got it,
or it is about to, or it is still in the queue, or the kernel has dropped it.
-/

namespace CommonsC.EvMouse

open scoped List

/-! ## Events -/

/-- `struct input_event`, without its time. -/
structure InputEvent where
  type : UInt16
  code : UInt16
  value : Int32
  deriving DecidableEq

/-- `evmouse_event_t`, with the fields that are set in it. -/
inductive EvmouseEvent
  | motion (xrel yrel : Int32)
  | wheel (x y : Int32)
  | button (down pressed : Bool) (button : UInt8)
  deriving DecidableEq

def evSyn : UInt16 := 0x00
def evKey : UInt16 := 0x01
def evRel : UInt16 := 0x02
def synDropped : UInt16 := 0x03
def relX : UInt16 := 0x00
def relY : UInt16 := 0x01
def relHwheel : UInt16 := 0x06
def relWheel : UInt16 := 0x08
def btnLeft : UInt16 := 0x110
def btnRight : UInt16 := 0x111
def btnMiddle : UInt16 := 0x112
def btnSide : UInt16 := 0x113
def btnExtra : UInt16 := 0x114
def btnForward : UInt16 := 0x115
def btnBack : UInt16 := 0x116
def btnTask : UInt16 := 0x117

/-- `dispatch_motion`: what it hands to the listener. -/
def dispatchMotion (raw : InputEvent) : EvmouseEvent :=
  if raw.code = relX then .motion raw.value 0
  else if raw.code = relY then .motion 0 raw.value
  else .motion 0 0

/-- `dispatch_wheel`. -/
def dispatchWheel (raw : InputEvent) : EvmouseEvent :=
  if raw.code = relWheel then .wheel 0 raw.value
  else if raw.code = relHwheel then .wheel raw.value 0
  else .wheel 0 0

/-- The number that SDL has for a button. -/
def sdlButton (code : UInt16) : Option UInt8 :=
  if code = btnLeft then some 1
  else if code = btnRight then some 3
  else if code = btnMiddle then some 2
  else if code = btnSide then some 4
  else if code = btnExtra then some 5
  else if code = btnForward then some (5 + 1)
  else if code = btnBack then some (5 + 2)
  else if code = btnTask then some (5 + 3)
  else none

/-- `dispatch_button`. -/
def dispatchButton (raw : InputEvent) : Option EvmouseEvent :=
  (sdlButton raw.code).map (.button (raw.value ≠ 0) (raw.value ≠ 0))

/-- The switch of `evmouse_listen`. -/
def dispatch (raw : InputEvent) : Option EvmouseEvent :=
  if raw.type = evRel then
    if raw.code = relX ∨ raw.code = relY then some (dispatchMotion raw)
    else if raw.code = relHwheel ∨ raw.code = relWheel then some (dispatchWheel raw)
    else none
  else if raw.type = evKey then
    if btnLeft ≤ raw.code ∧ raw.code ≤ btnTask then dispatchButton raw else none
  else none

/-! ## The loop -/

/-- Where the listener is: in no call, before the check of its loop, before
`select`, with descriptors to read from, about to call the listener, or behind
the loop. -/
inductive Place (δ : Type*)
  | idle
  | loop
  | select
  | round (rest : List δ)
  | call (event : EvmouseEvent) (rest : List δ)
  | exit

variable {δ : Type*}

/-- Where a round goes on after an event. -/
def Place.after (rest : List δ) : Option EvmouseEvent → Place δ
  | some event => .call event rest
  | none => .round rest

/-- The flags and the listener, and for each descriptor the queue of the kernel
and whether the device is gone.  What has arrived, whether the queue has overrun,
what was read and what the listener got is recorded. -/
structure Listening (δ : Type*) where
  mouse : Evmouse
  place : Place δ
  queue : δ → List InputEvent
  gone : δ → Bool
  overran : δ → Bool
  arrived : δ → List InputEvent
  taken : List (δ × InputEvent)
  heard : List EvmouseEvent

/-- What happens: an event arrives, in its queue or in one that is full, a device
is unplugged, or a part of `evmouse_listen` or `evmouse_interrupt` runs. -/
inductive Act (δ : Type*)
  | arrive (d : δ) (event : InputEvent)
  | overrun (d : δ) (event : InputEvent)
  | unplug (d : δ)
  | listen
  | check
  | select
  | wait
  | round
  | call
  | leave
  | interrupt

/-- The descriptors that `select` finds readable: those with an event, and those
of devices that are gone. -/
def Listening.ready (s : Listening δ) (fds : List δ) : List δ :=
  fds.filter fun d => s.gone d || !(s.queue d).isEmpty

/-- What was read from a descriptor. -/
def Listening.read [DecidableEq δ] (s : Listening δ) (d : δ) : List InputEvent :=
  (s.taken.filter (·.1 = d)).map Prod.snd

/-- The kernel's word for a queue that overran. -/
def InputEvent.dropped : InputEvent := ⟨evSyn, synDropped, 0⟩

variable [DecidableEq δ] {fds : List δ}

/-- The steps of the listener on the descriptors `fds`.  `select` may also time
out, or fail.  Of the kernel it is assumed that a queue gives its events in order,
each as soon as it has arrived, and that only an overrun drops any. -/
inductive Acts (fds : List δ) : Listening δ → Act δ → Listening δ → Prop
  | arrive {s : Listening δ} {d : δ} {event : InputEvent} :
      s.gone d = false →
      Acts fds s (.arrive d event)
        { s with
          queue := Function.update s.queue d (s.queue d ++ [event])
          arrived := Function.update s.arrived d (s.arrived d ++ [event]) }
  -- evdev drops what is in a full queue, and tells so in front of the event
  | overrun {s : Listening δ} {d : δ} {event : InputEvent} :
      s.gone d = false →
      Acts fds s (.overrun d event)
        { s with
          queue := Function.update s.queue d [.dropped, event]
          overran := Function.update s.overran d true
          arrived := Function.update s.arrived d (s.arrived d ++ [event]) }
  | unplug {s : Listening δ} {d : δ} :
      Acts fds s (.unplug d) { s with gone := Function.update s.gone d true }
  | enter {s : Listening δ} {mouse : Evmouse} :
      s.place = .idle → evmouseListenEntry s.mouse = (mouse, true) →
      Acts fds s .listen { s with mouse, place := .loop }
  | turnedAway {s : Listening δ} {mouse : Evmouse} :
      s.place = .idle → evmouseListenEntry s.mouse = (mouse, false) →
      Acts fds s .listen { s with mouse }
  | goOn {s : Listening δ} :
      s.place = .loop → evmouseIsInterrupted s.mouse = true →
      Acts fds s .check { s with place := .select }
  | stop {s : Listening δ} :
      s.place = .loop → evmouseIsInterrupted s.mouse = false →
      Acts fds s .check { s with place := .exit }
  | select {s : Listening δ} :
      s.place = .select → s.ready fds ≠ [] →
      Acts fds s .select { s with place := .round (s.ready fds) }
  | wait {s : Listening δ} : s.place = .select → Acts fds s .wait { s with place := .loop }
  | read {s : Listening δ} {d : δ} {rest : List δ} {event : InputEvent} {events : List InputEvent} :
      s.place = .round (d :: rest) → s.gone d = false → s.queue d = event :: events →
      Acts fds s .round
        { s with
          place := .after rest (dispatch event)
          queue := Function.update s.queue d events
          taken := s.taken ++ [(d, event)] }
  | readFails {s : Listening δ} {d : δ} {rest : List δ} :
      s.place = .round (d :: rest) → s.gone d = true →
      Acts fds s .round { s with place := .round rest }
  | done {s : Listening δ} :
      s.place = .round [] → Acts fds s .round { s with place := .loop }
  | call {s : Listening δ} {event : EvmouseEvent} {rest : List δ} :
      s.place = .call event rest →
      Acts fds s .call { s with place := .round rest, heard := s.heard ++ [event] }
  | leave {s : Listening δ} :
      s.place = .exit →
      Acts fds s .leave { s with mouse := evmouseListenExit s.mouse, place := .idle }
  | interrupt {s : Listening δ} :
      Acts fds s .interrupt { s with mouse := evmouseInterrupt s.mouse }

/-- The listener on the descriptors `fds`.  Nothing has arrived yet. -/
def listener (fds : List δ) : TransitionSystem (Listening δ) (Act δ) where
  init s := s.mouse = evmouseOpenDefault ∧ s.place = .idle ∧ (∀ d, s.queue d = []) ∧
    (∀ d, s.overran d = false) ∧ (∀ d, s.arrived d = []) ∧ s.taken = [] ∧ s.heard = []
  step := Acts fds

/-! ## The flags -/

/-- Where the thread is for the flags. -/
def Place.pc : Place δ → Pc
  | .idle => .idle
  | .exit => .exit
  | _ => .loop

/-- The flags alone. -/
def Listening.flags (s : Listening δ) : State Unit := ⟨s.mouse, fun _ => s.place.pc⟩

omit [DecidableEq δ] in
theorem flags_eq {s s' : Listening δ} (hmouse : s'.mouse = s.mouse)
    (hpc : s'.place.pc = s.place.pc) : s'.flags = s.flags := by
  rw [Listening.flags, Listening.flags, hmouse, hpc]

omit [DecidableEq δ] in
theorem flags_update (s : Listening δ) (mouse : Evmouse) (place : Place δ) :
    ({ s with mouse, place } : Listening δ).flags =
      { mouse, pc := Function.update s.flags.pc () place.pc } := by
  rw [Listening.flags, State.mk.injEq]
  exact ⟨rfl, funext fun u => (Function.update_self u place.pc s.flags.pc).symm⟩

/-- **The listener does to the flags what one thread does** in
`CommonsC.EvMouse.Model`. -/
theorem listener_simulation (fds : List δ) :
    (listener fds).Simulation (system Unit) fun s a => a = s.flags where
  init s hs := by
    obtain ⟨hmouse, hplace, -⟩ := hs
    refine ⟨s.flags, ?_, rfl⟩
    rw [Listening.flags, hmouse, hplace]
    rfl
  step s l s' a _ ha h := by
    subst ha
    have hpc : ∀ {place : Place δ}, s.place = place → s.flags.pc () = place.pc :=
      fun hplace => congrArg Place.pc hplace
    have hone : ∀ {l : Label Unit} {a : State Unit}, Step s.flags l a →
        ∃ ls a', (system Unit).Path s.flags ls a' ∧ a' = a := fun hstep =>
      ⟨_, _, .cons hstep (.nil _), rfl⟩
    have hnone : ∀ {a : State Unit}, a = s.flags →
        ∃ ls a', (system Unit).Path s.flags ls a' ∧ a' = a := fun ha =>
      ⟨[], _, .nil _, ha.symm⟩
    cases h with
    | arrive | overrun | unplug => exact hnone rfl
    | enter hplace hentry =>
        rw [flags_update]
        exact hone (.enter (hpc hplace) hentry)
    | turnedAway hplace hentry => exact hone (.turnedAway (hpc hplace) hentry)
    | goOn hplace hcheck =>
        have hsame : ({ s with place := .select } : Listening δ).flags = s.flags :=
          flags_eq rfl (by rw [hplace]; rfl)
        rw [hsame]
        exact hone (.goOn (hpc hplace) hcheck)
    | stop hplace hcheck =>
        rw [flags_update s s.mouse .exit]
        exact hone (.stop (hpc hplace) hcheck)
    | select hplace => exact hnone (flags_eq rfl (by rw [hplace]; rfl))
    | wait hplace => exact hnone (flags_eq rfl (by rw [hplace]; rfl))
    | read hplace =>
        refine hnone (flags_eq rfl ?_)
        rw [hplace]
        cases dispatch _ <;> rfl
    | readFails hplace => exact hnone (flags_eq rfl (by rw [hplace]; rfl))
    | done hplace => exact hnone (flags_eq rfl (by rw [hplace]; rfl))
    | call hplace => exact hnone (flags_eq rfl (by rw [hplace]; rfl))
    | leave hplace =>
        rw [flags_update]
        exact hone (.leave (hpc hplace))
    | interrupt => exact hone .interrupt

/-! ## Where the events are -/

/-- The event that the listener is about to get. -/
def Place.pending : Place δ → List EvmouseEvent
  | .call event _ => [event]
  | _ => []

/-- The descriptors that are still to be read from in the round. -/
def Place.rest : Place δ → List δ
  | .round rest => rest
  | .call _ rest => rest
  | _ => []

/-- How often the listener can still be called before the next check. -/
def Place.callsLeft (fds : List δ) : Place δ → ℕ
  | .select => fds.length
  | .round rest => rest.length
  | .call _ rest => rest.length + 1
  | _ => 0

omit [DecidableEq δ] in
@[simp] theorem rest_after (rest : List δ) (event : Option EvmouseEvent) :
    (Place.after rest event).rest = rest := by
  cases event <;> rfl

omit [DecidableEq δ] in
@[simp] theorem pending_after (rest : List δ) (event : Option EvmouseEvent) :
    (Place.after rest event).pending = event.toList := by
  cases event <;> rfl

omit [DecidableEq δ] in
theorem callsLeft_after (rest : List δ) (event : Option EvmouseEvent) :
    (Place.after rest event).callsLeft fds = rest.length + event.toList.length := by
  cases event <;> rfl

omit [DecidableEq δ] in
theorem mem_ready {s : Listening δ} {d : δ} :
    d ∈ s.ready fds ↔ d ∈ fds ∧ (s.gone d = true ∨ s.queue d ≠ []) := by
  simp [Listening.ready]

theorem read_append (taken : List (δ × InputEvent)) (x : δ × InputEvent) (d : δ) :
    ((taken ++ [x]).filter (·.1 = d)).map Prod.snd =
      (taken.filter (·.1 = d)).map Prod.snd ++ if x.1 = d then [x.2] else [] := by
  rw [List.filter_append, List.map_append]
  by_cases h : x.1 = d <;> simp [h]

/-- What has arrived was read or is in its queue, less what was dropped; the
listener has got, or is about to get, what was read; and nothing is read that is
not there. -/
structure Delivers (fds : List δ) (s : Listening δ) : Prop where
  split : ∀ d, s.overran d = false → s.read d ++ s.queue d = s.arrived d
  kept : ∀ d, (s.read d ++ s.queue d).filter (· ≠ .dropped) <+ s.arrived d
  heard : s.heard ++ s.place.pending = s.taken.filterMap fun x => dispatch x.2
  mine : ∀ x ∈ s.taken, x.1 ∈ fds
  nodup : s.place.rest.Nodup
  readable : ∀ d ∈ s.place.rest, d ∈ fds ∧ (s.gone d = true ∨ s.queue d ≠ [])
  calls : s.place.callsLeft fds ≤ fds.length

namespace Delivers

variable {s s' : Listening δ} {l : Act δ}

/-- Between the rounds. -/
theorem move (h : Delivers fds s) {mouse : Evmouse} {place : Place δ}
    (hpending : place.pending = s.place.pending) (hrest : place.rest = [])
    (hcalls : place.callsLeft fds ≤ fds.length) :
    Delivers fds { s with mouse, place } where
  split := h.split
  kept := h.kept
  heard := by
    rw [hpending]
    exact h.heard
  mine := h.mine
  nodup := by
    rw [hrest]
    exact List.nodup_nil
  readable := by
    rw [hrest]
    exact nofun
  calls := hcalls

theorem arrive (h : Delivers fds s) (d : δ) (event : InputEvent) :
    Delivers fds { s with
      queue := Function.update s.queue d (s.queue d ++ [event])
      arrived := Function.update s.arrived d (s.arrived d ++ [event]) } where
  split e hnever := by
    by_cases he : e = d
    · subst he
      simp only [Function.update_self]
      rw [← h.split e hnever, List.append_assoc]
      rfl
    · simp only [Function.update_of_ne he]
      exact h.split e hnever
  kept e := by
    by_cases he : e = d
    · subst he
      simp only [Function.update_self]
      have hmore : [event].filter (· ≠ .dropped) <+ [event] := List.filter_sublist
      have happend := (h.kept e).append hmore
      rwa [← List.filter_append, List.append_assoc] at happend
    · simp only [Function.update_of_ne he]
      exact h.kept e
  heard := h.heard
  mine := h.mine
  nodup := h.nodup
  readable e he := by
    refine (h.readable e he).imp_right (Or.imp_right fun hne => ?_)
    by_cases heq : e = d
    · subst heq
      simp
    · simpa only [Function.update_of_ne heq] using hne
  calls := h.calls

/-- What was read stays read when the queue overruns. -/
theorem overrun (h : Delivers fds s) (d : δ) (event : InputEvent) :
    Delivers fds { s with
      queue := Function.update s.queue d [.dropped, event]
      overran := Function.update s.overran d true
      arrived := Function.update s.arrived d (s.arrived d ++ [event]) } where
  split e hnever := by
    have he : e ≠ d := by
      rintro rfl
      simp at hnever
    simp only [Function.update_of_ne he] at hnever ⊢
    exact h.split e hnever
  kept e := by
    by_cases he : e = d
    · subst he
      simp only [Function.update_self]
      have hread : (s.read e).filter (· ≠ .dropped) <+ s.arrived e :=
        ((List.sublist_append_left _ _).filter _).trans (h.kept e)
      have hmore : [InputEvent.dropped, event].filter (· ≠ .dropped) <+ [event] := by
        rw [List.filter_cons_of_neg (by simp)]
        exact List.filter_sublist
      rw [List.filter_append]
      exact hread.append hmore
    · simp only [Function.update_of_ne he]
      exact h.kept e
  heard := h.heard
  mine := h.mine
  nodup := h.nodup
  readable e he := by
    refine (h.readable e he).imp_right (Or.imp_right fun hne => ?_)
    by_cases heq : e = d
    · subst heq
      simp
    · simpa only [Function.update_of_ne heq] using hne
  calls := h.calls

theorem unplug (h : Delivers fds s) (d : δ) :
    Delivers fds { s with gone := Function.update s.gone d true } :=
  { h with
    readable := fun e he => by
      refine (h.readable e he).imp_right (Or.imp_left fun hgone => ?_)
      by_cases heq : e = d
      · subst heq
        exact Function.update_self ..
      · simpa only [Function.update_of_ne heq] using hgone }

theorem read (h : Delivers fds s) {d : δ} {rest : List δ} {event : InputEvent}
    {events : List InputEvent} (hplace : s.place = .round (d :: rest))
    (hqueue : s.queue d = event :: events) :
    Delivers fds { s with
      place := .after rest (dispatch event)
      queue := Function.update s.queue d events
      taken := s.taken ++ [(d, event)] } := by
  have hrest : s.place.rest = d :: rest := by rw [hplace]; rfl
  have hpending : s.place.pending = [] := by rw [hplace]; rfl
  have hnodup := h.nodup
  have hreadable := h.readable
  have hheard := h.heard
  rw [hrest] at hnodup hreadable
  rw [hpending, List.append_nil] at hheard
  have hcalls := h.calls
  rw [hplace] at hcalls
  obtain ⟨hd, hnodup⟩ := List.nodup_cons.1 hnodup
  have hsame : ∀ e, ((s.taken ++ [(d, event)]).filter (·.1 = e)).map Prod.snd ++
      Function.update s.queue d events e = s.read e ++ s.queue e := by
    intro e
    rw [read_append]
    by_cases he : d = e
    · subst he
      rw [if_pos rfl, Function.update_self, List.append_assoc, hqueue]
      rfl
    · rw [if_neg he, List.append_nil, Function.update_of_ne (Ne.symm he)]
      rfl
  refine ⟨fun e hnever => (hsame e).trans (h.split e hnever), fun e => ?_, ?_, fun x hx => ?_,
    by rwa [rest_after], fun e he => ?_, ?_⟩
  · have hkept := h.kept e
    rwa [← hsame e] at hkept
  · dsimp only
    rw [pending_after, List.filterMap_append, hheard]
    cases hdispatch : dispatch event <;> simp [hdispatch]
  · rcases List.mem_append.1 hx with hx | hx
    · exact h.mine x hx
    · rw [List.mem_singleton.1 hx]
      exact (hreadable d List.mem_cons_self).1
  · rw [rest_after] at he
    have hne : e ≠ d := fun heq => hd (heq ▸ he)
    refine (hreadable e (List.mem_cons_of_mem _ he)).imp_right (Or.imp_right fun hqueue => ?_)
    simpa only [Function.update_of_ne hne] using hqueue
  · have hone : (dispatch event).toList.length ≤ 1 := by cases dispatch event <;> simp
    exact (callsLeft_after rest (dispatch event)).trans_le
      ((Nat.add_le_add_left hone _).trans hcalls)

/-- Every step leaves the events accounted for. -/
theorem step (hfds : fds.Nodup) (h : Delivers fds s) (hstep : Acts fds s l s') :
    Delivers fds s' := by
  cases hstep with
  | arrive => exact h.arrive _ _
  | overrun => exact h.overrun _ _
  | unplug => exact h.unplug _
  | enter hplace => exact h.move (by rw [hplace]; rfl) rfl (Nat.zero_le _)
  | turnedAway hplace => exact { h with }
  | goOn hplace => exact h.move (by rw [hplace]; rfl) rfl le_rfl
  | stop hplace => exact h.move (by rw [hplace]; rfl) rfl (Nat.zero_le _)
  | select hplace =>
      refine ⟨h.split, h.kept, ?_, h.mine, hfds.filter _, fun d hd => mem_ready.1 hd,
        List.length_filter_le _ _⟩
      have hheard := h.heard
      rw [hplace] at hheard
      exact hheard
  | wait hplace => exact h.move (by rw [hplace]; rfl) rfl (Nat.zero_le _)
  | read hplace _ hqueue => exact h.read hplace hqueue
  | readFails hplace =>
      have hnodup := h.nodup
      have hreadable := h.readable
      have hheard := h.heard
      have hcalls := h.calls
      rw [hplace] at hnodup hreadable hheard hcalls
      exact ⟨h.split, h.kept, hheard, h.mine, (List.nodup_cons.1 hnodup).2,
        fun d hd => hreadable d (List.mem_cons_of_mem _ hd), (Nat.le_succ _).trans hcalls⟩
  | done hplace => exact h.move (by rw [hplace]; rfl) rfl (Nat.zero_le _)
  | call hplace =>
      have hnodup := h.nodup
      have hreadable := h.readable
      have hheard := h.heard
      have hcalls := h.calls
      rw [hplace] at hnodup hreadable hheard hcalls
      exact ⟨h.split, h.kept, (List.append_nil _).trans hheard, h.mine, hnodup, hreadable,
        (Nat.le_succ _).trans hcalls⟩
  | leave hplace => exact h.move (by rw [hplace]; rfl) rfl (Nat.zero_le _)
  | interrupt => exact { h with }

end Delivers

theorem delivers_of_reachable (hfds : fds.Nodup) {s : Listening δ}
    (hs : (listener fds).Reachable s) : Delivers fds s := by
  refine hs.invariant (fun s hs => ?_) fun _ _ _ _ h => h.step hfds
  obtain ⟨-, hplace, hqueue, -, harrived, htaken, hheard⟩ := hs
  refine ⟨fun d _ => ?_, fun d => ?_, ?_, ?_, ?_, ?_, ?_⟩
  · rw [Listening.read, htaken, hqueue, harrived]
    rfl
  · rw [Listening.read, htaken, hqueue, harrived]
    exact List.Sublist.refl []
  · rw [hplace, htaken, hheard]
    rfl
  · rw [htaken]
    exact nofun
  · rw [hplace]
    exact List.nodup_nil
  · rw [hplace]
    exact nofun
  · rw [hplace]
    exact Nat.zero_le _

/-! ## After an interrupt -/

/-- With the flag cleared the round comes to its end, and no other one begins. -/
theorem stopping_calls {s s' : Listening δ} {l : Act δ} (hflag : s.mouse.listening = false)
    (hl : l ≠ .listen) (h : Acts fds s l s') :
    s'.mouse.listening = false ∧ s'.heard.length + s'.place.callsLeft fds ≤
      s.heard.length + s.place.callsLeft fds := by
  have hmove : ∀ place : Place δ, place.callsLeft fds = 0 →
      s.heard.length + place.callsLeft fds ≤ s.heard.length + s.place.callsLeft fds :=
    fun place hzero => Nat.add_le_add_left (hzero.trans_le (Nat.zero_le _)) _
  cases h with
  | arrive | overrun | unplug => exact ⟨hflag, le_rfl⟩
  | enter | turnedAway => exact absurd rfl hl
  | goOn _ hcheck => exact absurd (hflag.symm.trans hcheck) nofun
  | stop => exact ⟨hflag, hmove _ rfl⟩
  | select hplace =>
      refine ⟨hflag, Nat.add_le_add_left ?_ _⟩
      rw [hplace]
      exact List.length_filter_le _ _
  | wait => exact ⟨hflag, hmove _ rfl⟩
  | @read d rest event _ hplace =>
      have hone : (dispatch event).toList.length ≤ 1 := by cases dispatch event <;> simp
      refine ⟨hflag, Nat.add_le_add_left ?_ _⟩
      rw [hplace, callsLeft_after]
      exact Nat.add_le_add_left hone _
  | readFails hplace =>
      refine ⟨hflag, Nat.add_le_add_left ?_ _⟩
      rw [hplace]
      exact Nat.le_succ _
  | done => exact ⟨hflag, hmove _ rfl⟩
  | call hplace =>
      refine ⟨hflag, ?_⟩
      rw [hplace, List.length_append, Nat.add_assoc, Nat.add_comm [_].length]
      rfl
  | leave => exact ⟨hflag, hmove _ rfl⟩
  | interrupt => exact ⟨rfl, le_rfl⟩

/-- **Where the events go.**  At any time, what has arrived at a descriptor was
read from it in order, or is in its queue, less what an overrun has dropped; and
what was read is with the listener, or about to be.  No read waits.  After an
interrupt there are at most as many calls as descriptors. -/
theorem evmouse_delivers (hfds : fds.Nodup) {s : Listening δ} (hs : (listener fds).Reachable s) :
    (∀ d, s.overran d = false → s.read d ++ s.queue d = s.arrived d) ∧
      (∀ d, (s.read d ++ s.queue d).filter (· ≠ .dropped) <+ s.arrived d) ∧
      s.heard ++ s.place.pending = (s.taken.filterMap fun x => dispatch x.2) ∧
      (∀ x ∈ s.taken, x.1 ∈ fds) ∧
      (∀ d rest, s.place = .round (d :: rest) → s.gone d = true ∨ s.queue d ≠ []) ∧
      (s.mouse.listening = false → ∀ ls s',
        ((listener fds).restrict fun _ l => l ≠ .listen).Path s ls s' →
        s'.heard.length ≤ s.heard.length + fds.length) := by
  have h := delivers_of_reachable hfds hs
  refine ⟨h.split, h.kept, h.heard, h.mine, fun d rest hplace => ?_, fun hflag ls s' hpath => ?_⟩
  · have hreadable := h.readable
    rw [hplace] at hreadable
    exact (hreadable d List.mem_cons_self).2
  · have hstops := hpath.preserves
      (P := fun s' => s'.mouse.listening = false ∧ s'.heard.length + s'.place.callsLeft fds ≤
        s.heard.length + s.place.callsLeft fds) ⟨hflag, le_rfl⟩
      fun _ _ _ hs hstep =>
        (stopping_calls hs.1 hstep.1 hstep.2).imp_right fun hle => hle.trans hs.2
    exact (Nat.le_add_right _ _).trans (hstops.2.trans (Nat.add_le_add_left h.calls _))

/-- Nothing has happened. -/
def Listening.silent : Listening ℕ :=
  ⟨evmouseOpenDefault, .idle, fun _ => [], fun _ => false, fun _ => false, fun _ => [], [], []⟩

theorem silent_init : (listener [3]).init Listening.silent :=
  ⟨rfl, rfl, fun _ => rfl, fun _ => rfl, fun _ => rfl, rfl, rfl⟩

/-- A mouse moves and is heard; it moves again and again, and its queue overruns. -/
theorem evmouse_delivers_motion : ∃ s : Listening ℕ, (listener [3]).Reachable s ∧
    s.heard = [.motion 5 0] ∧ s.queue 3 = [.dropped, ⟨evRel, relX, 9⟩] ∧
      s.arrived 3 = [⟨evRel, relX, 5⟩, ⟨evRel, relY, 7⟩, ⟨evRel, relX, 9⟩] ∧
      ((s.read 3 ++ s.queue 3).filter (· ≠ .dropped)) <+ s.arrived 3 := by
  have hstep : ∀ {s : Listening ℕ} (l : Act ℕ) {s' : Listening ℕ}, (listener [3]).Reachable s →
      Acts [3] s l s' → (listener [3]).Reachable s' := fun _ _ hs h => hs.step h
  have harrived := hstep (.arrive 3 ⟨evRel, relX, 5⟩) (.init silent_init) (.arrive rfl)
  have hloop := hstep .listen harrived (.enter rfl rfl)
  have hround := hstep .select (hstep .check hloop (.goOn rfl rfl)) (.select rfl (by decide))
  have hcall := hstep .call (hstep .round hround (.read rfl rfl rfl)) (.call rfl)
  have hmoved := hstep (.arrive 3 ⟨evRel, relY, 7⟩) hcall (.arrive rfl)
  have hs := hstep (.overrun 3 ⟨evRel, relX, 9⟩) hmoved (.overrun rfl)
  exact ⟨_, hs, rfl, rfl, rfl, (evmouse_delivers (by decide) hs).2.1 3⟩

end CommonsC.EvMouse
