import CommonsC.Base.Liveness
import CommonsC.EvMouse.Dispatch
import Mathlib.Tactic.Linarith

/-!
# CommonsC.EvMouse.Delivery

Every event gets to the listener, if nobody interrupts it and no queue overruns.

A round of `evmouse_listen` reads one event from every descriptor that is
readable, so no device keeps another one waiting.  The events before the one
that is waited for, and the descriptors to read from before its own, are counted
by a rank that every part of the loop makes smaller.
-/

namespace CommonsC.EvMouse

open TransitionSystem

variable {δ : Type*} [DecidableEq δ] {fds : List δ}

/-! ## What a step can do -/

/-- The listener reads, calls, or finds something to read. -/
def Act.Works : Act δ → Prop
  | .select | .round | .call => True
  | _ => False

/-- The listener has a round to end, or can begin one. -/
def Listening.Busy (fds : List δ) (s : Listening δ) : Prop :=
  (∃ rest, s.place = .round rest) ∨ (∃ event rest, s.place = .call event rest) ∨
    ((s.place = .loop ∨ s.place = .select) ∧ s.ready fds ≠ [])

/-- How much there is to do before the next event of `d` is read. -/
def Place.work (fds : List δ) (d : δ) : Place δ → ℕ
  | .round rest => if d ∈ rest then 2 * rest.length else 2 * fds.length + 3 + 2 * rest.length
  | .call _ rest => if d ∈ rest then 2 * rest.length + 1 else 2 * fds.length + 4 + 2 * rest.length
  | _ => 2 * fds.length + 2

/-- In the loop, and nobody has interrupted. -/
def Listening.Listens (s : Listening δ) : Prop :=
  s.mouse.listening = true ∧ s.place.pc = .loop

/-- The rank of a state in which `d` waits for its event `n`. -/
def Listening.rank (fds : List δ) (d : δ) (n : ℕ) (s : Listening δ) : ℕ :=
  (n - (s.read d).length) * (4 * fds.length + 5) + s.place.work fds d

variable {s s' : Listening δ} {l : Act δ} {d : δ} {n : ℕ}

omit [DecidableEq δ] in
/-- Where a listener is. -/
theorem place_cases (h : s.Listens) :
    (s.place = .loop ∨ s.place = .select) ∨ (∃ rest, s.place = .round rest) ∨
      ∃ event rest, s.place = .call event rest := by
  obtain ⟨-, hpc⟩ := h
  cases hplace : s.place with
  | idle => rw [hplace] at hpc; cases hpc
  | loop => exact .inl (.inl rfl)
  | select => exact .inl (.inr rfl)
  | round rest => exact .inr (.inl ⟨rest, rfl⟩)
  | call event rest => exact .inr (.inr ⟨event, rest, rfl⟩)
  | exit => rw [hplace] at hpc; cases hpc

/-- What is read is never taken back. -/
theorem read_grows (h : Acts fds s l s') (d : δ) : s.read d <+: s'.read d := by
  cases h with
  | read =>
      rw [Listening.read, Listening.read, read_append]
      exact List.prefix_append _ _
  | _ => exact List.prefix_rfl

/-- Nothing that has arrived is forgotten. -/
theorem arrived_grows (h : Acts fds s l s') (d : δ) : s.arrived d <+: s'.arrived d := by
  cases h with
  | @arrive e event | @overrun e event =>
      by_cases hd : d = e
      · subst hd
        simp only [Function.update_self]
        exact List.prefix_append _ _
      · simp only [Function.update_of_ne hd]
        exact List.prefix_rfl
  | _ => exact List.prefix_rfl

/-- What does not work leaves the listener as far as it was. -/
theorem stays_listening (hl : ¬l.Works) (hquiet : s'.mouse.listening = true) (hs : s.Listens)
    (h : Acts fds s l s') :
    s'.Listens ∧ s'.taken = s.taken ∧ s'.place.work fds d = s.place.work fds d ∧
      s'.place.pending = s.place.pending := by
  obtain ⟨hflag, hpc⟩ := hs
  cases h with
  | arrive | overrun | unplug => exact ⟨⟨hflag, hpc⟩, rfl, rfl, rfl⟩
  | enter hplace | turnedAway hplace | leave hplace =>
      rw [hplace] at hpc
      cases hpc
  | goOn hplace => exact ⟨⟨hflag, rfl⟩, rfl, by rw [hplace]; rfl, by rw [hplace]; rfl⟩
  | stop _ hcheck => exact absurd (hflag.symm.trans hcheck) nofun
  | wait hplace => exact ⟨⟨hflag, rfl⟩, rfl, by rw [hplace]; rfl, by rw [hplace]; rfl⟩
  | select | read | readFails | done | call => exact absurd trivial hl
  | interrupt => cases hquiet

/-- Where the listener is to be called, it is called. -/
theorem call_stays {event : EvmouseEvent} {rest : List δ} (hplace : s.place = .call event rest)
    (h : Acts fds s l s') :
    (l.Works → s'.place.pending = []) ∧ (¬l.Works → s'.place = s.place) := by
  cases h with
  | arrive | overrun | unplug | interrupt | turnedAway => exact ⟨False.elim, fun _ => rfl⟩
  | enter hother | goOn hother | stop hother | select hother | wait hother | read hother
  | readFails hother | done hother | leave hother => cases hplace.symm.trans hother
  | call => exact ⟨fun _ => rfl, fun hl => absurd trivial hl⟩

theorem work_le (place : Place δ) :
    place.work fds d ≤ 2 * fds.length + 4 + 2 * place.rest.length := by
  cases place <;> simp only [Place.work, Place.rest, List.length_nil] <;> first | omega | skip
  all_goals split <;> omega

/-- A descriptor before that of `d` is done with. -/
theorem work_after {rest : List δ} {e : δ} (hne : d ≠ e) (event : Option EvmouseEvent) :
    (Place.after rest event).work fds d < (Place.round (e :: rest)).work fds d := by
  have hmem : d ∈ e :: rest ↔ d ∈ rest := by simp [hne]
  cases event <;> simp only [Place.after, Place.work, hmem, List.length_cons] <;> split <;> omega

/-- An event is waiting. -/
theorem queue_ne_nil (h : Delivers fds s) (hnever : s.overran d = false)
    (hread : (s.read d).length < n) (hn : n ≤ (s.arrived d).length) : s.queue d ≠ [] := by
  intro hnil
  have hsplit := h.split d hnever
  rw [hnil, List.append_nil] at hsplit
  rw [hsplit] at hread
  omega

/-- **What works makes the rank smaller.** -/
theorem rank_lt (hl : l.Works) (hdelivers : Delivers fds s) (hs : s.Listens) (hd : d ∈ fds)
    (hgone : s.gone d = false) (hnever : s.overran d = false) (hread : (s.read d).length < n)
    (hn : n ≤ (s.arrived d).length) (h : Acts fds s l s') :
    s'.Listens ∧ s'.rank fds d n < s.rank fds d n := by
  have hqueue := queue_ne_nil hdelivers hnever hread hn
  cases h with
  | arrive | overrun | unplug | enter | turnedAway | goOn | stop | wait | leave | interrupt =>
      exact hl.elim
  | select hplace =>
      have hready : d ∈ s.ready fds := mem_ready.2 ⟨hd, .inr hqueue⟩
      have hlength : (s.ready fds).length ≤ fds.length := List.length_filter_le _ _
      refine ⟨⟨hs.1, rfl⟩, Nat.add_lt_add_left ?_ _⟩
      rw [hplace]
      simp only [Place.work, if_pos hready]
      omega
  | @read e rest event events hplace hthere =>
      have hcalls := hdelivers.calls
      rw [hplace] at hcalls
      have hlistens : (Place.after rest (dispatch event)).pc = .loop := by
        cases dispatch event <;> rfl
      refine ⟨⟨hs.1, hlistens⟩, ?_⟩
      rw [Listening.rank, Listening.rank, Listening.read, Listening.read, read_append, hplace]
      by_cases hne : d = e
      · subst hne
        have hle : (Place.after rest (dispatch event)).work fds d ≤
            2 * fds.length + 4 + 2 * (Place.after rest (dispatch event)).rest.length := work_le _
        rw [rest_after] at hle
        have hrest : rest.length + 1 ≤ fds.length := hcalls
        obtain ⟨m, hm⟩ := Nat.exists_eq_add_of_lt hread
        rw [if_pos rfl, List.length_append, hm]
        have hafter : (s.read d).length + m + 1 - ((s.read d).length + 1) = m := by omega
        have hbefore : (s.read d).length + m + 1 - (s.read d).length = m + 1 := by omega
        change ((s.read d).length + m + 1 - ((s.read d).length + 1)) * _ +
            (Place.after rest (dispatch event)).work fds d <
          ((s.read d).length + m + 1 - (s.read d).length) * _ + _
        rw [hafter, hbefore, Nat.add_mul]
        omega
      · rw [if_neg (Ne.symm hne), List.append_nil]
        exact Nat.add_lt_add_left (work_after hne _) _
  | @readFails e rest hplace hthere =>
      have hne : d ≠ e := by
        rintro rfl
        exact Bool.false_ne_true (hgone.symm.trans hthere)
      refine ⟨⟨hs.1, rfl⟩, Nat.add_lt_add_left ?_ _⟩
      rw [hplace]
      exact work_after hne none
  | done hplace =>
      refine ⟨⟨hs.1, rfl⟩, Nat.add_lt_add_left ?_ _⟩
      rw [hplace]
      simp [Place.work]
  | @call event rest hplace =>
      refine ⟨⟨hs.1, rfl⟩, Nat.add_lt_add_left ?_ _⟩
      rw [hplace]
      simp only [Place.work]
      split <;> omega

/-! ## Runs -/

section Runs

variable {s₀ : Listening δ} {ρ : (listener fds).Run s₀} {i : ℕ}

/-- Nothing that was read is lost in a run. -/
theorem run_grows (ρ : (listener fds).Run s₀) (d : δ) {i j : ℕ} (hij : i ≤ j) :
    (ρ.state i).read d <+: (ρ.state j).read d ∧
      (ρ.state i).arrived d <+: (ρ.state j).arrived d :=
  ρ.preserves (P := fun s => (ρ.state i).read d <+: s.read d ∧
      (ρ.state i).arrived d <+: s.arrived d) ⟨List.prefix_rfl, List.prefix_rfl⟩
    (fun _ _ _ h hstep => ⟨h.1.trans (read_grows hstep d), h.2.trans (arrived_grows hstep d)⟩) hij

/-- The listener is in its loop, from `i` on nobody interrupts it or unplugs the
device of `d`, and the queue of `d` never overruns. -/
structure LeftAlone (ρ : (listener fds).Run s₀) (d : δ) (i : ℕ) : Prop where
  inLoop : (ρ.state i).place.pc = .loop
  listening : ∀ j, i ≤ j → (ρ.state j).mouse.listening = true
  plugged : ∀ j, i ≤ j → (ρ.state j).gone d = false
  never : ∀ j, i ≤ j → (ρ.state j).overran d = false

theorem LeftAlone.listens (h : LeftAlone ρ d i) : (ρ.state i).Listens :=
  ⟨h.listening i le_rfl, h.inLoop⟩

theorem LeftAlone.later (h : LeftAlone ρ d i) {j : ℕ} (hij : i ≤ j)
    (hlistens : (ρ.state j).Listens) : LeftAlone ρ d j :=
  ⟨hlistens.2, fun k hk => h.listening k (hij.trans hk), fun k hk => h.plugged k (hij.trans hk),
    fun k hk => h.never k (hij.trans hk)⟩

omit [DecidableEq δ] in
/-- While an event is waiting, there is something to do. -/
theorem busy_of_waiting (hs : s.Listens) (hd : d ∈ fds)
    (hqueue : s.queue d ≠ []) : s.Busy fds := by
  rcases place_cases hs with hplace | hround | hcall
  · have hready : d ∈ s.ready fds := mem_ready.2 ⟨hd, .inr hqueue⟩
    exact .inr (.inr ⟨hplace, List.ne_nil_of_mem hready⟩)
  · exact .inl hround
  · exact .inr (.inl hcall)

variable (hdelivers : ∀ j, Delivers fds (ρ.state j)) (hd : d ∈ fds)
  (hfair : ρ.Fair (Listening.Busy fds) Act.Works)

include hdelivers hd hfair in
/-- The rank falls, again and again. -/
theorem eventually_rank_lt (h : LeftAlone ρ d i) (hread : ((ρ.state i).read d).length < n)
    (hn : n ≤ ((ρ.state i).arrived d).length) :
    Eventually i fun j => LeftAlone ρ d j ∧
      (ρ.state j).rank fds d n < (ρ.state i).rank fds d n := by
  have htakes := hfair.takes (i := i) (P := fun s => s.Listens ∧ s.taken = (ρ.state i).taken ∧
    s.place.work fds d = (ρ.state i).place.work fds d ∧ n ≤ (s.arrived d).length)
    ⟨h.listens, rfl, rfl, hn⟩
    (fun j hij hj => by
      obtain ⟨hlistens, htaken, -, hn⟩ := hj
      have hread : ((ρ.state j).read d).length < n := by
        rw [Listening.read, htaken]
        exact hread
      exact busy_of_waiting hlistens hd (queue_ne_nil (hdelivers j) (h.never j hij) hread hn))
    fun j hij l hl hj hstep => by
      obtain ⟨hlistens, htaken, hwork, hn⟩ := hj
      obtain ⟨hlistens', htaken', hwork', -⟩ :=
        stays_listening (d := d) hl (h.listening (j + 1) (hij.trans (Nat.le_succ j))) hlistens hstep
      exact ⟨hlistens', htaken'.trans htaken, hwork'.trans hwork,
        hn.trans (arrived_grows hstep d).length_le⟩
  obtain ⟨j, hij, ⟨hlistens, htaken, hwork, hn⟩, hworks⟩ := htakes
  obtain ⟨l, hl, hstep⟩ := hworks.step
  have hsame : (ρ.state j).read d = (ρ.state i).read d := by
    rw [Listening.read, htaken]
    rfl
  obtain ⟨hlistens', hlt⟩ := rank_lt hl (hdelivers j) hlistens hd (h.plugged j hij)
    (h.never j hij) (by rwa [hsame]) hn hstep
  refine ⟨j + 1, hij.trans (Nat.le_succ j), h.later (hij.trans (Nat.le_succ j)) hlistens', ?_⟩
  refine hlt.trans_eq ?_
  rw [Listening.rank, Listening.rank, hsame, hwork]

include hdelivers hd hfair in
/-- Every event that has arrived is read. -/
theorem eventually_read (h : LeftAlone ρ d i) :
    Eventually i fun j => LeftAlone ρ d j ∧ (ρ.state i).arrived d <+: (ρ.state j).read d := by
  have hlength : Eventually i fun j => LeftAlone ρ d j ∧
      ((ρ.state i).arrived d).length ≤ ((ρ.state j).read d).length := by
    refine eventually_of_rank (P := LeftAlone ρ d)
      (fun j => (ρ.state j).rank fds d ((ρ.state i).arrived d).length) h fun j hij hj => ?_
    by_cases hread : ((ρ.state i).arrived d).length ≤ ((ρ.state j).read d).length
    · exact .now (.inl ⟨hj, hread⟩)
    · exact (eventually_rank_lt hdelivers hd hfair hj (Nat.lt_of_not_le hread)
        (run_grows ρ d hij).2.length_le).mono fun _ _ hk => .inr hk
  refine hlength.mono fun j hij hj => ⟨hj.1, ?_⟩
  have hread : (ρ.state j).read d <+: (ρ.state j).arrived d :=
    ⟨_, (hdelivers j).split d (h.never j hij)⟩
  exact List.prefix_of_prefix_length_le (run_grows ρ d hij).2 hread hj.2

omit hd in
include hdelivers hfair in
/-- What was read is heard. -/
theorem eventually_heard (i : ℕ) :
    Eventually i fun j =>
      (ρ.state j).heard = (ρ.state j).taken.filterMap fun x => dispatch x.2 := by
  have hdone : ∀ j, (ρ.state j).place.pending = [] →
      (ρ.state j).heard = (ρ.state j).taken.filterMap fun x => dispatch x.2 := by
    intro j hpending
    have hheard := (hdelivers j).heard
    rwa [hpending, List.append_nil] at hheard
  cases hplace : (ρ.state i).place with
  | call event rest =>
      have htakes := hfair.takes (i := i) (P := fun s => s.place = .call event rest) hplace
        (fun j _ hj => .inr (.inl ⟨event, rest, hj⟩))
        fun j _ l hl hj hstep => ((call_stays hj hstep).2 hl).trans hj
      obtain ⟨j, hij, hj, hworks⟩ := htakes
      obtain ⟨l, hl, hstep⟩ := hworks.step
      exact ⟨j + 1, hij.trans (Nat.le_succ j), hdone _ ((call_stays hj hstep).1 hl)⟩
  | _ => exact .now (hdone i (by rw [hplace]; rfl))

end Runs

/-- **Every event is heard.**  While nobody interrupts the listener or unplugs the
device and its queue does not overrun, what has arrived is read, and the listener
gets it, if the listener is not kept from its work and `select` succeeds in the end. -/
theorem evmouse_hears (hfds : fds.Nodup) {s₀ : Listening δ} (hinit : (listener fds).init s₀)
    (ρ : (listener fds).Run s₀) (hfair : ρ.Fair (Listening.Busy fds) Act.Works) (hd : d ∈ fds)
    {i : ℕ} (h : LeftAlone ρ d i) :
    Eventually i fun j => (ρ.state i).arrived d <+: (ρ.state j).read d ∧
      (ρ.state j).heard = (ρ.state j).taken.filterMap fun x => dispatch x.2 := by
  have hdelivers : ∀ j, Delivers fds (ρ.state j) := fun j =>
    delivers_of_reachable hfds (ρ.reachable hinit j)
  refine (eventually_read hdelivers hd hfair h).bind fun j _ hj => ?_
  exact (eventually_heard hdelivers hfair j).mono fun k hjk hk =>
    ⟨hj.2.trans (run_grows ρ d hjk).1, hk⟩

/-- A step before a run of the listener on descriptor 3. -/
def before {s s' : Listening ℕ} (l : Act ℕ) (h : Acts [3] s l s') (ρ : (listener [3]).Run s') :
    (listener [3]).Run s := ρ.cons h

/-- A mouse moves, and the listener hears it; then nothing happens. -/
def movingRun : (listener [3]).Run Listening.silent :=
  before (.arrive 3 ⟨evRel, relX, 5⟩) (.arrive rfl) <|
  before .listen (.enter rfl rfl) <|
  before .check (.goOn rfl rfl) <|
  before .select (.select rfl (List.cons_ne_nil 3 [])) <|
  before .round (.read rfl rfl rfl) <|
  before .call (.call rfl) <|
  before .round (.done rfl) <|
  Run.idle (listener [3]) _

theorem movingRun_fair : movingRun.Fair (Listening.Busy [3]) Act.Works := by
  intro i
  refine ⟨i + 7, Nat.le_add_right i 7, .inr ?_⟩
  rintro (⟨rest, h⟩ | ⟨event, rest, h⟩ | ⟨-, h⟩)
  · cases h
  · cases h
  · exact h rfl

theorem movingRun_leftAlone : LeftAlone movingRun 3 2 where
  inLoop := rfl
  listening j hj := by
    obtain ⟨k, rfl⟩ := Nat.exists_eq_add_of_le' hj
    match k with
    | 0 | 1 | 2 | 3 | 4 | _ + 5 => rfl
  plugged j hj := by
    obtain ⟨k, rfl⟩ := Nat.exists_eq_add_of_le' hj
    match k with
    | 0 | 1 | 2 | 3 | 4 | _ + 5 => rfl
  never j hj := by
    obtain ⟨k, rfl⟩ := Nat.exists_eq_add_of_le' hj
    match k with
    | 0 | 1 | 2 | 3 | 4 | _ + 5 => rfl

theorem evmouse_hears_motion : Eventually 2 fun j =>
    [⟨evRel, relX, 5⟩] <+: (movingRun.state j).read 3 ∧
      (movingRun.state j).heard = (movingRun.state j).taken.filterMap fun x => dispatch x.2 :=
  evmouse_hears (by decide) silent_init movingRun movingRun_fair (by decide) movingRun_leftAlone

end CommonsC.EvMouse
