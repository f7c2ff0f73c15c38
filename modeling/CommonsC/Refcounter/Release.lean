import CommonsC.Refcounter.Model

/-!
# CommonsC.Refcounter.Release

The last release is signalled exactly once.

The counter is the number of outstanding holders (`Counted`), so that the one
who takes it to zero is the last: nobody is left who could take or drop another
reference, and the counter stays zero.
-/

namespace CommonsC.Refcounter

variable {η : Type*} [DecidableEq η]

/-! ## Promises -/

/-- A holder that is to be made is made by one that is there, and by one only. -/
structure Promises (pc : η → Pc η) : Prop where
  promised : ∀ {h new}, pc h = .ref new → pc new = .promised
  distinct : ∀ {h h' new}, pc h = .ref new → pc h' = .ref new → h = h'

/-- Where a holder is after an update. -/
theorem update_cases {pc : η → Pc η} {h x : η} {v w : Pc η}
    (hx : Function.update pc h v x = w) : x = h ∧ v = w ∨ x ≠ h ∧ pc x = w := by
  by_cases heq : x = h
  · subst heq
    exact .inl ⟨rfl, (Function.update_self x v pc).symm.trans hx⟩
  · exact .inr ⟨heq, (Function.update_of_ne heq v pc).symm.trans hx⟩

section

variable {pc : η → Pc η} {h new : η} {v : Pc η}

/-- A holder goes on that nobody is about to make, and if it is about to make
one, nobody else is. -/
theorem Promises.update (hp : Promises pc) (hh : ∀ x, x ≠ h → pc x ≠ .ref h)
    (hv : ∀ n, v = .ref n → n ≠ h ∧ pc n = .promised ∧ ∀ x, pc x ≠ .ref n) :
    Promises (Function.update pc h v) where
  promised {x n} hx := by
    rcases update_cases hx with ⟨-, heq⟩ | ⟨hxh, hold⟩
    · obtain ⟨hnh, hn, -⟩ := hv n heq
      exact (Function.update_of_ne hnh v pc).trans hn
    · have hnh : n ≠ h := by
        rintro rfl
        exact hh x hxh hold
      exact (Function.update_of_ne hnh v pc).trans (hp.promised hold)
  distinct {x y n} hx hy := by
    rcases update_cases hx with ⟨hxh, heq⟩ | ⟨-, hx⟩ <;>
      rcases update_cases hy with ⟨hyh, heq'⟩ | ⟨-, hy⟩
    · exact hxh.trans hyh.symm
    · exact absurd hy ((hv n heq).2.2 y)
    · exact absurd hx ((hv n heq').2.2 x)
    · exact hp.distinct hx hy

omit [DecidableEq η] in
/-- Only who is promised is about to be made. -/
theorem Promises.ne_ref (hp : Promises pc) (hh : pc h ≠ .promised) (x : η) : pc x ≠ .ref h :=
  fun hx => hh (hp.promised hx)

/-- A holder that makes none leaves the promises alone. -/
theorem Promises.leave (hp : Promises pc) (hh : pc h ≠ .promised) (hv : ∀ n, v ≠ .ref n) :
    Promises (Function.update pc h v) :=
  hp.update (fun x _ => hp.ne_ref hh x) fun n heq => absurd heq (hv n)

theorem Promises.check (hp : Promises pc) (hh : pc h = .holding) (hnew : pc new = .absent) :
    Promises (Function.update (Function.update pc new .promised) h (.ref new)) := by
  have hne : new ≠ h := by
    rintro rfl
    cases hnew.symm.trans hh
  have hnone : ∀ x, pc x ≠ .ref new := hp.ne_ref fun heq => by cases hnew.symm.trans heq
  refine (hp.update (fun x _ => hnone x) fun _ heq => by cases heq).update ?_ ?_
  · intro x _ hx
    rcases update_cases hx with ⟨-, heq⟩ | ⟨-, hx⟩
    · cases heq
    · exact hp.ne_ref (fun heq => by cases hh.symm.trans heq) x hx
  · rintro _ ⟨⟩
    refine ⟨hne, Function.update_self new _ pc, fun x hx => ?_⟩
    rcases update_cases hx with ⟨-, heq⟩ | ⟨-, hx⟩
    · cases heq
    · exact hnone x hx

theorem Promises.ref (hp : Promises pc) (hh : pc h = .ref new) :
    Promises (Function.update (Function.update pc h .holding) new .holding) := by
  refine (hp.update ?_ fun _ heq => by cases heq).update ?_ fun _ heq => by cases heq
  · exact fun x _ => hp.ne_ref (fun heq => by cases hh.symm.trans heq) x
  · intro x _ hx
    rcases update_cases hx with ⟨-, heq⟩ | ⟨hxh, hx⟩
    · cases heq
    · exact hxh (hp.distinct hx hh)

end

/-! ## The invariant -/

/-- What holds between any two steps. -/
structure Counted (s : State η) : Prop where
  promises : Promises s.pc
  finite : (holders s.pc).Finite
  counter : s.counter.counter = (holders s.pc).ncard
  last : ∀ h, Last s h → holders s.pc = ∅
  unique : ∀ h h', Last s h → Last s h' → h = h'
  signalled : holders s.pc = ∅ → ∃ h, Last s h

omit [DecidableEq η] in
/-- As long as there are holders nobody is the last. -/
theorem Counted.of_held {s : State η} (hpromises : Promises s.pc)
    (hfinite : (holders s.pc).Finite) (hcounter : s.counter.counter = (holders s.pc).ncard)
    (hheld : holders s.pc ≠ ∅) (hlast : ∀ h, ¬Last s h) : Counted s where
  promises := hpromises
  finite := hfinite
  counter := hcounter
  last h hl := absurd hl (hlast h)
  unique h _ hl := absurd hl (hlast h)
  signalled hempty := absurd hempty hheld

theorem counted_init (first : η) : Counted (initial first) := by
  have hholders : holders (initial first).pc = {first} := by
    have hnone : holders (fun _ : η => (Pc.absent : Pc η)) = ∅ := by
      ext x
      exact iff_of_false (fun h => by cases h) (Set.notMem_empty x)
    rw [initial, holders_update_insert rfl, hnone, insert_empty_eq]
  have hpc : ∀ {h v}, (initial first).pc h = v → v = .absent ∨ v = .holding := by
    rintro h _ rfl
    dsimp only [initial]
    rw [Function.update_apply]
    split
    · exact .inr rfl
    · exact .inl rfl
  have href : ∀ {h new}, (initial first).pc h ≠ .ref new := fun hr => by
    rcases hpc hr with heq | heq <;> cases heq
  refine .of_held ⟨fun hr => absurd hr href, fun hr => absurd hr href⟩ ?_ ?_ ?_ ?_
  · rw [hholders]
    exact Set.finite_singleton first
  · rw [hholders, Set.ncard_singleton]
    rfl
  · rw [hholders]
    exact Set.singleton_ne_empty first
  · rintro h (hl | hl) <;> rcases hpc hl with heq | heq <;> cases heq

/-! ## Steps -/

omit [DecidableEq η] in
theorem holders_ne_empty {pc : η → Pc η} {h : η} (hh : (pc h).holds = true) : holders pc ≠ ∅ :=
  Set.nonempty_iff_ne_empty.1 ⟨h, hh⟩

omit [DecidableEq η] in
/-- As long as somebody holds a reference, nobody has released the last. -/
theorem Counted.not_last {s : State η} (hs : Counted s) {h : η} (hh : (s.pc h).holds = true)
    (x : η) : ¬Last s x := fun hl => holders_ne_empty hh (hs.last x hl)

/-- Nobody becomes the last who does not come out of `refcounter_unref` so. -/
theorem not_last_update {c : Refcounter} {pc : η → Pc η} {h : η} {v : Pc η}
    (hv : v ≠ .unref 0 ∧ v ≠ .returned true) (hpc : ∀ x, ¬Last ⟨c, pc⟩ x) (x : η) :
    ¬Last ⟨c, Function.update pc h v⟩ x := by
  rintro (hl | hl) <;> rcases update_cases hl with ⟨-, heq⟩ | ⟨-, hx⟩
  · exact hv.1 heq
  · exact hpc x (.inl hx)
  · exact hv.2 heq
  · exact hpc x (.inr hx)

/-- `refcounter_ref` is about to be called. -/
theorem Counted.check {s : State η} (hs : Counted s) {h new : η} (hh : s.pc h = .holding)
    (hnew : s.pc new = .absent) :
    Counted { s with pc := Function.update (Function.update s.pc new .promised) h (.ref new) } := by
  have hne : h ≠ new := by
    rintro rfl
    cases hnew.symm.trans hh
  have hholds : (s.pc h).holds = true := by
    rw [hh]
    rfl
  have hholders : holders (Function.update (Function.update s.pc new .promised) h (.ref new)) =
      holders s.pc := by
    rw [holders_update_same, holders_update_same]
    · rw [hnew]
      rfl
    · rw [Function.update_of_ne hne, hh]
      rfl
  refine .of_held (hs.promises.check hh hnew) ?_ ?_ ?_ ?_
  · rw [hholders]
    exact hs.finite
  · rw [hholders]
    exact hs.counter
  · rw [hholders]
    exact holders_ne_empty hholds
  · exact not_last_update (by simp) (not_last_update (by simp) (hs.not_last hholds))

/-- A new holder counts. -/
theorem Counted.ref {s : State η} (hs : Counted s) {h new : η} (hh : s.pc h = .ref new) :
    Counted { counter := refcounterRef s.counter
              pc := Function.update (Function.update s.pc h .holding) new .holding } := by
  have hholds : (s.pc h).holds = true := by
    rw [hh]
    rfl
  have hholders : holders (Function.update (Function.update s.pc h .holding) new .holding) =
      insert new (holders s.pc) := by
    rw [holders_update_insert rfl, holders_update_same]
    rw [hh]
    rfl
  have hfresh : new ∉ holders s.pc := fun hmem => by
    rw [holders, Set.mem_ofPred_eq, hs.promises.promised hh] at hmem
    cases hmem
  refine .of_held (hs.promises.ref hh) ?_ ?_ ?_ ?_
  · rw [hholders]
    exact hs.finite.insert new
  · rw [hholders, Set.ncard_insert_of_notMem hfresh hs.finite, refcounterRef, hs.counter]
    exact (Int.natCast_succ _).symm
  · rw [hholders]
    exact (Set.insert_nonempty new _).ne_empty
  · exact not_last_update (by simp) (not_last_update (by simp) (hs.not_last hholds))

section

variable {s : State η} (hs : Counted s) {h : η} {v : Pc η}
include hs

/-- What is left when a holder is gone. -/
theorem Counted.remaining (hh : (s.pc h).holds = true) (hv : v.holds = false) :
    (holders (Function.update s.pc h v)).Finite ∧
      (refcounterUnref s.counter).2 = (holders (Function.update s.pc h v)).ncard := by
  have hins : insert h (holders (Function.update s.pc h v)) = holders s.pc :=
    insert_holders_update hh
  have hfinite : (holders (Function.update s.pc h v)).Finite :=
    hs.finite.subset (hins ▸ Set.subset_insert h _)
  have hcard : (holders s.pc).ncard = (holders (Function.update s.pc h v)).ncard + 1 := by
    rw [← hins, Set.ncard_insert_of_notMem (not_mem_holders_update hv) hfinite]
  refine ⟨hfinite, ?_⟩
  calc (refcounterUnref s.counter).2 = s.counter.counter - 1 := rfl
    _ = ((holders s.pc).ncard : Int) - 1 := by rw [hs.counter]
    _ = (holders (Function.update s.pc h v)).ncard := by
      rw [hcard]
      omega

/-- A holder that is gone does not count, and the last one knows. -/
theorem Counted.unref (hh : s.pc h = .holding) :
    Counted { counter := (refcounterUnref s.counter).1
              pc := Function.update s.pc h (.unref (refcounterUnref s.counter).2) } := by
  have hholds : (s.pc h).holds = true := by
    rw [hh]
    rfl
  have hnp : s.pc h ≠ .promised := fun hp => by cases hh.symm.trans hp
  generalize hremaining : (refcounterUnref s.counter).2 = remaining
  obtain ⟨hfinite, hcounter⟩ := hs.remaining (v := .unref remaining) hholds rfl
  rw [hremaining] at hcounter
  have hzero : remaining = 0 ↔ holders (Function.update s.pc h (.unref remaining)) = ∅ := by
    rw [← Set.ncard_eq_zero hfinite]
    omega
  -- Nobody was the last before.
  have hlast : ∀ x, Last { counter := (refcounterUnref s.counter).1
                           pc := Function.update s.pc h (.unref remaining) } x →
      x = h ∧ remaining = 0 := by
    rintro x (hl | hl) <;> rcases update_cases hl with ⟨heq, hv⟩ | ⟨-, hx⟩
    · exact ⟨heq, Pc.unref.inj hv⟩
    · exact absurd (.inl hx) (hs.not_last hholds x)
    · cases hv
    · exact absurd (.inr hx) (hs.not_last hholds x)
  constructor
  · exact hs.promises.leave hnp fun _ hv => by cases hv
  · exact hfinite
  · exact hremaining.trans hcounter
  · exact fun x hl => hzero.1 (hlast x hl).2
  · exact fun x y hx hy => (hlast x hx).1.trans (hlast y hy).1.symm
  · intro hempty
    refine ⟨h, .inl ?_⟩
    exact hzero.2 hempty ▸ Function.update_self h _ s.pc

/-- The one who returns is the last if it took the counter to zero. -/
theorem Counted.ret {remaining : Int} (hh : s.pc h = .unref remaining) :
    Counted { s with pc := Function.update s.pc h (.returned (remaining == 0)) } := by
  have hnp : s.pc h ≠ .promised := fun hp => by cases hh.symm.trans hp
  have hholders : holders (Function.update s.pc h (.returned (remaining == 0))) =
      holders s.pc := holders_update_same (by rw [hh]; rfl)
  have hlast : ∀ x, Last { s with
      pc := Function.update s.pc h (.returned (remaining == 0)) } x ↔ Last s x := by
    intro x
    by_cases hx : x = h
    · subst hx
      simp [Last, hh, Function.update_self]
    · simp [Last, Function.update_of_ne hx]
  constructor
  · exact hs.promises.leave hnp fun _ hv => by cases hv
  · exact hholders ▸ hs.finite
  · exact hholders ▸ hs.counter
  · exact fun x hl => hholders ▸ hs.last x ((hlast x).1 hl)
  · exact fun x y hx hy => hs.unique x y ((hlast x).1 hx) ((hlast y).1 hy)
  · intro hempty
    obtain ⟨x, hx⟩ := hs.signalled (hholders ▸ hempty)
    exact ⟨x, (hlast x).2 hx⟩

end

theorem Counted.step {s s' : State η} {l : Label η} (hs : Counted s) (h : Step s l s') :
    Counted s' := by
  cases h with
  | check hh hnew => exact hs.check hh hnew
  | ref hh => exact hs.ref hh
  | unref hh heq =>
    cases heq
    exact hs.unref hh
  | ret hh => exact hs.ret hh

/-! ## Runs -/

theorem counted_of_reachable {s : State η} (hs : (system η).Reachable s) : Counted s := by
  refine hs.invariant ?_ fun s l s' _ hs h => hs.step h
  rintro s ⟨first, rfl⟩
  exact counted_init first

/-- The counter does not overflow while there are fewer than `2 ^ 31` holders. -/
theorem counter_lt {s : State η} (hs : ((system η).restrict Below).Reachable s) :
    s.counter.counter < 2 ^ 31 := by
  refine hs.invariant (P := fun s => s.counter.counter < 2 ^ 31) ?_ ?_
  · rintro s ⟨first, rfl⟩
    exact (by decide : (1 : Int) < 2 ^ 31)
  · rintro s l s' hr hlt ⟨hbelow, h⟩
    have hcounter := (counted_of_reachable hr.of_restrict).counter
    cases h with
    | check => exact hlt
    | ref =>
      have hsum := hbelow _ rfl
      show s.counter.counter + 1 < 2 ^ 31
      omega
    | unref _ heq =>
      cases heq
      show s.counter.counter - 1 < 2 ^ 31
      omega
    | ret => exact hlt

/-- Behind the last release there are only returns, and the counter stays zero. -/
theorem path_of_holders_eq_empty {s s' : State η} {ls : List (Label η)}
    (h : (system η).Path s ls s') (hs : Counted s) (hempty : holders s.pc = ∅) :
    (∀ l ∈ ls, ∃ h, l = .ret h) ∧ refcounterDestroyAsserts s'.counter = true := by
  induction h with
  | nil s =>
    refine ⟨fun l hl => absurd hl List.not_mem_nil, ?_⟩
    rw [refcounterDestroyAsserts, hs.counter, hempty, Set.ncard_empty]
    rfl
  | @cons s s₁ s₂ l ls hstep hpath ih =>
    have hnone : ∀ {h v}, s.pc h = v → v.holds = true → False := fun hh hv =>
      holders_ne_empty ((congrArg Pc.holds hh).trans hv) hempty
    have hs₁ := hs.step hstep
    cases hstep with
    | check hh => exact (hnone hh rfl).elim
    | ref hh => exact (hnone hh rfl).elim
    | unref hh => exact (hnone hh rfl).elim
    | @ret h remaining hh =>
      have hholders : holders (Function.update s.pc h (.returned (remaining == 0))) =
          holders s.pc := holders_update_same (by rw [hh]; rfl)
      obtain ⟨hret, hdestroy⟩ := ih hs₁ (hholders.trans hempty)
      refine ⟨fun l hl => ?_, hdestroy⟩
      rcases List.mem_cons.1 hl with rfl | hl
      · exact ⟨h, rfl⟩
      · exact hret l hl

/-! ## The last release -/

/-- **The last release is signalled exactly once.**  Whatever the holders do,
the counter is their number, at most one `refcounter_unref` returns true and one
does when nobody is left, and from its decrement on nobody changes the counter,
which `refcounter_destroy` finds zero. -/
theorem refcounter_last_release {s : State η}
    (hs : ((system η).restrict Below).Reachable s) :
    (holders s.pc).Finite ∧ s.counter.counter = (holders s.pc).ncard ∧
      s.counter.counter < 2 ^ 31 ∧
      (∀ h, (s.pc h).holds = true → refcounterRefAsserts s.counter = true) ∧
      (∀ h h', Last s h → Last s h' → h = h') ∧
      (holders s.pc = ∅ → ∃ h, Last s h) ∧
      ∀ h, Last s h → ∀ ls s', (system η).Path s ls s' →
        (∀ l ∈ ls, ∃ x, l = .ret x) ∧ refcounterDestroyAsserts s'.counter = true := by
  have hcounted := counted_of_reachable hs.of_restrict
  refine ⟨hcounted.finite, hcounted.counter, counter_lt hs, fun h hh => ?_, hcounted.unique,
    hcounted.signalled, fun h hl ls s' hpath => ?_⟩
  · have hpos : 0 < (holders s.pc).ncard := (Set.ncard_pos hcounted.finite).2 ⟨h, hh⟩
    rw [refcounterRefAsserts, hcounted.counter]
    exact decide_eq_true (Int.natCast_pos.2 hpos)
  · exact path_of_holders_eq_empty hpath hcounted (hcounted.last h hl)

/-- Two holders, the first of which is gone and the second about to hear that it
was the last. -/
theorem refcounter_last_release_two :
    refcounterDestroyAsserts ⟨0⟩ = true ∧
      ∀ ls s', (system Bool).Path ⟨⟨0⟩, fun h => if h then .returned false else .unref 0⟩ ls s' →
        (∀ l ∈ ls, ∃ x, l = .ret x) ∧ refcounterDestroyAsserts s'.counter = true := by
  have hone : ∀ {s : State Bool}, ((system Bool).restrict Below).Reachable s →
      s.counter = ⟨1⟩ → (holders s.pc).ncard + 1 < 2 ^ 31 := fun {s} hs h => by
    have hcounter := (counted_of_reachable hs.of_restrict).counter
    rw [h] at hcounter
    dsimp only at hcounter
    omega
  have h₀ : ((system Bool).restrict Below).Reachable (initial true) := .init ⟨true, rfl⟩
  have h₁ := h₀.step (l := .check true false) ⟨nofun, .check rfl rfl⟩
  have h₂ := h₁.step (l := .ref true) ⟨fun _ _ => hone h₁ rfl, by exact .ref rfl⟩
  have h₃ := h₂.step (l := .unref true) ⟨nofun, .unref rfl rfl⟩
  have h₄ := h₃.step (l := .ret true) ⟨nofun, .ret rfl⟩
  have h₅ := h₄.step (l := .unref false) ⟨nofun, .unref rfl rfl⟩
  obtain ⟨-, -, -, -, -, -, hlast⟩ := refcounter_last_release h₅
  refine ⟨rfl, fun ls s' hpath => hlast false (.inl rfl) ls s' ?_⟩
  convert hpath using 1
  refine congrArg (State.mk _) (funext fun h => ?_)
  cases h <;> rfl

end CommonsC.Refcounter
