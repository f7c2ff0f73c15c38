import CommonsC.Base.Transition

/-!
# CommonsC.Base.Revalidate

A mirror that asks again for what it holds.

A server publishes versions, and the mirror holds a copy of one of them, or of a
part of it.  The server sends its version unless the copy passes for it, and
confirms the copy otherwise.  The rules are

* `of_step` — a refreshed or confirmed copy is one of the version, where no copy
  passes for another version than its own;
* `path_passes` — a copy that passes for the version stays until another one is
  published, be it whole or not.
-/

open TransitionSystem

/-- Which versions a copy is one of, and which it passes for. -/
structure Tagging (V P : Type*) where
  of : P → V → Prop
  passes : P → V → Prop

/-- The version that the server has, and the copy that the mirror holds. -/
structure Mirror (V P : Type*) where
  version : V
  copy : Option P

namespace Mirror

variable {V P : Type*}

/-- What happens to a mirror. -/
inductive Event (P : Type*) where
  | publish
  | refresh (p : P)
  | confirm
  | fail

/-- One event. -/
inductive Step (T : Tagging V P) (published : Set V) : Mirror V P → Event P → Mirror V P → Prop
  | publish {s : Mirror V P} {v : V} (h : v ∈ published) :
      Step T published s .publish { s with version := v }
  | refresh {s : Mirror V P} {p : P} (hof : T.of p s.version)
      (hold : ∀ q ∈ s.copy, ¬T.passes q s.version) :
      Step T published s (.refresh p) { s with copy := some p }
  | confirm {s : Mirror V P} {q : P} (h : q ∈ s.copy) (hpasses : T.passes q s.version) :
      Step T published s .confirm s
  | fail {s : Mirror V P} : Step T published s .fail s

/-- The mirror, from when it holds nothing. -/
def system (T : Tagging V P) (published : Set V) : TransitionSystem (Mirror V P) (Event P) where
  init s := s.version ∈ published ∧ s.copy = none
  step := Step T published

/-- The copies that the mirror takes are as `W` tells. -/
def Takes (W : P → Prop) (_ : Mirror V P) (e : Event P) : Prop := ∀ p, e = .refresh p → W p

variable {T : Tagging V P} {published : Set V}

theorem published_of_reachable {s : Mirror V P} (h : (system T published).Reachable s) :
    s.version ∈ published := by
  induction h with
  | init h => exact h.1
  | step _ hstep ih =>
      cases hstep with
      | publish h => exact h
      | _ => exact ih

/-- What the mirror holds was published. -/
theorem exists_of_reachable {s : Mirror V P} (h : (system T published).Reachable s) :
    ∀ p ∈ s.copy, ∃ v ∈ published, T.of p v := by
  induction h with
  | init h =>
      intro p hp
      rw [h.2] at hp
      cases hp
  | step hs hstep ih =>
      cases hstep with
      | refresh hof =>
          rintro p ⟨⟩
          exact ⟨_, published_of_reachable hs, hof⟩
      | _ => exact ih

/-- Where all that is taken is as `W` tells, all that is held is. -/
theorem takes_of_reachable {W : P → Prop} {s : Mirror V P}
    (h : ((system T published).restrict (Takes W)).Reachable s) : ∀ p ∈ s.copy, W p := by
  induction h with
  | init h =>
      intro p hp
      rw [h.2] at hp
      cases hp
  | step _ hstep ih =>
      obtain ⟨htakes, hstep⟩ := hstep
      cases hstep with
      | refresh =>
          rintro p ⟨⟩
          exact htakes _ rfl
      | _ => exact ih

/-- **A refreshed or confirmed copy is one of the version.** -/
theorem of_step (htags : ∀ p, ∀ v ∈ published, ∀ w ∈ published, T.of p v → T.passes p w → T.of p w)
    {s s' : Mirror V P} {e : Event P} (hs : (system T published).Reachable s)
    (h : Step T published s e s') (he : e = .confirm ∨ ∃ p, e = .refresh p) :
    ∃ p ∈ s'.copy, T.of p s'.version := by
  cases h with
  | publish | fail => exact absurd he (by simp)
  | refresh hof => exact ⟨_, rfl, hof⟩
  | confirm hq hpasses =>
      obtain ⟨v, hv, hof⟩ := exists_of_reachable hs _ hq
      exact ⟨_, hq, htags _ v hv _ (published_of_reachable hs) hof hpasses⟩

/-- **A copy that passes for the version stays.** -/
theorem path_passes {s s' : Mirror V P} {es : List (Event P)} {q : P} (hq : q ∈ s.copy)
    (hpasses : T.passes q s.version) (h : (system T published).Path s es s')
    (hes : .publish ∉ es) : s' = s ∧ ∀ p, .refresh p ∉ es := by
  induction h with
  | nil => exact ⟨rfl, fun p => List.not_mem_nil⟩
  | cons hstep _ ih =>
      obtain ⟨hfirst, hrest⟩ := not_or.1 (mt List.mem_cons.2 hes)
      cases hstep with
      | publish => exact absurd rfl hfirst
      | refresh _ hold => exact absurd hpasses (hold q hq)
      | confirm | fail =>
          obtain ⟨hsame, hnone⟩ := ih hq hpasses hrest
          exact ⟨hsame, fun p hp => (List.mem_cons.1 hp).elim nofun (hnone p)⟩

end Mirror
