import CommonsC.Base.BitParser

/-!
# CommonsC.Base.Traced

Parsers that log what they do besides returning a result.  The log is kept
even when the fuel runs out.

A traced parser is written next to a plain one, with the same structure, and
`Follows` ties the two: without its log it is the plain one.  The same relation
compares it with a second run that may use other values for what the first one
`lost`: as long as nothing is lost the two runs are the same, and after a loss
their logs can be told apart.  `Spec` adds when the parser fails.

Both are proved along the structure of a parser, by the rules below.
-/

/-- A parser with a log. -/
def Traced (ε σ α : Type) : Type := Nat → σ → List ε × Option (Option α × σ)

namespace Traced

variable {ε σ α β : Type}

/-- Go on from a first part that logged `x.1` and returned `x.2`. -/
def andThen (f : α → Traced ε σ β) (fuel : Nat) (x : List ε × Option (Option α × σ)) :
    List ε × Option (Option β × σ) :=
  match x.2 with
  | none => (x.1, none)
  | some (none, s) => (x.1, some (none, s))
  | some (some a, s) => (x.1 ++ (f a fuel s).1, (f a fuel s).2)

instance : Monad (Traced ε σ) where
  pure a := fun _ s => ([], some (some a, s))
  bind q f := fun fuel s => andThen f fuel (q fuel s)

/-- Log something. -/
def emit (e : ε) : Traced ε σ Unit := fun _ s => ([e], some (some (), s))

/-- Log something, and report failure. -/
def reject (e : ε) : Traced ε σ α := fun _ s => ([e], some (none, s))

/-- Run a parser; what is logged depends on where it started and what it
returned. -/
def observe (p : Parser σ α) (events : σ → Option α → List ε) : Traced ε σ α := fun fuel s =>
  match p fuel s with
  | none => ([], none)
  | some (r, s') => (events s r, some (r, s'))

/-- Run a parser without logging anything. -/
def silent (p : Parser σ α) : Traced ε σ α := fun fuel s => ([], p fuel s)

/-- Carry on after a failure, with the old value. -/
def unchecked (old : α) (q : Traced ε σ α) : Traced ε σ α := fun fuel s =>
  ((q fuel s).1, (q fuel s).2.map fun (r, s') => (some (r.getD old), s'))

/-- Carry on whatever the result. -/
def void (q : Traced ε σ α) : Traced ε σ Unit := fun fuel s =>
  ((q fuel s).1, (q fuel s).2.map fun (_, s') => (some (), s'))

/-- Run the parser if the condition holds. -/
def optionally (c : Bool) (q : Traced ε σ Unit) : Traced ε σ Unit := if c then q else pure ()

/-- Run the parser a number of times. -/
def times : Nat → Traced ε σ Unit → Traced ε σ Unit
  | 0, _ => pure ()
  | n + 1, q => do q; times n q

theorem pure_run (a : α) (fuel : Nat) (s : σ) :
    (pure a : Traced ε σ α) fuel s = ([], some (some a, s)) := rfl

/-- Running on after a result. -/
theorem bind_run {q : Traced ε σ α} {f : α → Traced ε σ β} {fuel : Nat} {s s' : σ} {a : α}
    (h : (q fuel s).2 = some (some a, s')) :
    (q >>= f) fuel s = ((q fuel s).1 ++ (f a fuel s').1, (f a fuel s').2) := by
  show andThen f fuel (q fuel s) = _
  rw [andThen, h]

/-- Running on when the fuel ran out. -/
theorem bind_run_none {q : Traced ε σ α} {f : α → Traced ε σ β} {fuel : Nat} {s : σ}
    (h : (q fuel s).2 = none) : (q >>= f) fuel s = ((q fuel s).1, none) := by
  show andThen f fuel (q fuel s) = _
  rw [andThen, h]

/-- Ending when the first part failed. -/
theorem bind_run_fail {q : Traced ε σ α} {f : α → Traced ε σ β} {fuel : Nat} {s s' : σ}
    (h : (q fuel s).2 = some (none, s')) : (q >>= f) fuel s = ((q fuel s).1, some (none, s')) := by
  show andThen f fuel (q fuel s) = _
  rw [andThen, h]

theorem observe_run {p : Parser σ α} {fuel : Nat} {s s' : σ} {r : Option α}
    (h : p fuel s = some (r, s')) (events : σ → Option α → List ε) :
    observe p events fuel s = (events s r, some (r, s')) := by rw [observe, h]

theorem observe_run_none {p : Parser σ α} {fuel : Nat} {s : σ} (h : p fuel s = none)
    (events : σ → Option α → List ε) : observe p events fuel s = ([], none) := by rw [observe, h]

theorem observe_snd (p : Parser σ α) (events : σ → Option α → List ε) (fuel : Nat) (s : σ) :
    (observe p events fuel s).2 = p fuel s := by
  cases h : p fuel s with
  | none => rw [observe_run_none h]
  | some r => rw [observe_run h]

/-- The log of a sequence: that of its first part, and then, if there was a
result, that of its second part. -/
theorem mem_bind {q : Traced ε σ α} {f : α → Traced ε σ β} {fuel : Nat} {s : σ} {e : ε} :
    e ∈ ((q >>= f) fuel s).1 ↔ e ∈ (q fuel s).1 ∨
      ∃ a s', (q fuel s).2 = some (some a, s') ∧ e ∈ (f a fuel s').1 := by
  cases h : (q fuel s).2 with
  | none => simp [bind_run_none h]
  | some r =>
      obtain ⟨a, s'⟩ := r
      cases a with
      | none => simp [bind_run_fail h]
      | some a => simp [bind_run h]

protected theorem pure_bind (a : α) (f : α → Traced ε σ β) : (pure a >>= f) = f a := rfl

protected theorem bind_assoc {γ : Type} (q : Traced ε σ α) (f : α → Traced ε σ β)
    (g : β → Traced ε σ γ) : q >>= f >>= g = q >>= fun a => f a >>= g := by
  funext fuel s
  cases h : (q fuel s).2 with
  | none =>
      have hq := bind_run_none (f := f) h
      rw [bind_run_none (congrArg Prod.snd hq), bind_run_none (f := fun a => f a >>= g) h,
        hq]
  | some r =>
      obtain ⟨a, s'⟩ := r
      cases a with
      | none =>
          have hq := bind_run_fail (f := f) h
          rw [bind_run_fail (congrArg Prod.snd hq), bind_run_fail (f := fun a => f a >>= g) h,
            hq]
      | some a =>
          have hq := bind_run (f := f) h
          rw [bind_run h]
          cases h' : (f a fuel s').2 with
          | none =>
              rw [bind_run_none ((congrArg Prod.snd hq).trans h'), bind_run_none h', hq]
          | some r =>
              obtain ⟨b, s''⟩ := r
              cases b with
              | none => rw [bind_run_fail ((congrArg Prod.snd hq).trans h'), bind_run_fail h', hq]
              | some b =>
                  rw [bind_run ((congrArg Prod.snd hq).trans h'), bind_run h', hq,
                    List.append_assoc]

theorem reject_bind (e : ε) (f : α → Traced ε σ β) : (reject e >>= f) = reject e := rfl

/-! ## Parsers that never fail -/

/-- The parser never reports failure. -/
def NeverFails (q : Traced ε σ α) : Prop := ∀ fuel s s', (q fuel s).2 ≠ some (none, s')

namespace NeverFails

protected theorem pure (a : α) : NeverFails (pure a : Traced ε σ α) := fun _ _ _ h => nomatch h

protected theorem bind {q : Traced ε σ α} {f : α → Traced ε σ β} (hq : q.NeverFails)
    (hf : ∀ a, (f a).NeverFails) : NeverFails (q >>= f) := by
  intro fuel s s' h
  cases hrun : (q fuel s).2 with
  | none =>
      rw [bind_run_none hrun] at h
      cases h
  | some r =>
      obtain ⟨a, s₁⟩ := r
      cases a with
      | none => exact hq fuel s s₁ hrun
      | some a =>
          rw [bind_run hrun] at h
          exact hf a fuel s₁ s' h

protected theorem emit (e : ε) : NeverFails (emit e : Traced ε σ Unit) := fun _ _ _ h => nomatch h

protected theorem silent {p : Parser σ α} (h : p.Unfailing) :
    NeverFails (silent p : Traced ε σ α) := h

protected theorem unchecked (old : α) (q : Traced ε σ α) : NeverFails (unchecked old q) := by
  intro fuel s s' h
  obtain ⟨_, _, h⟩ := Option.map_eq_some_iff.1 h
  cases h

protected theorem optionally {q : Traced ε σ Unit} (c : Bool) (h : q.NeverFails) :
    NeverFails (optionally c q) := by
  cases c with
  | false => exact NeverFails.pure ()
  | true => exact h

end NeverFails

/-! ## Runs that can be told apart -/

/-- The two logs differ at some place that both have. -/
def Diverge (log log' : List ε) : Prop :=
  ∃ (i : Nat) (e e' : ε), log[i]? = some e ∧ log'[i]? = some e' ∧ e ≠ e'

theorem Diverge.append {log log' : List ε} (h : Diverge log log') (more more' : List ε) :
    Diverge (log ++ more) (log' ++ more') := by
  obtain ⟨i, e, e', he, he', hne⟩ := h
  refine ⟨i, e, e', ?_, ?_, hne⟩
  · rw [List.getElem?_append_left (List.getElem?_eq_some_iff.1 he).1, he]
  · rw [List.getElem?_append_left (List.getElem?_eq_some_iff.1 he').1, he']

theorem Diverge.append_left {log log' : List ε} (h : Diverge log log') (front : List ε) :
    Diverge (front ++ log) (front ++ log') := by
  obtain ⟨i, e, e', he, he', hne⟩ := h
  refine ⟨front.length + i, e, e', ?_, ?_, hne⟩
  · rw [List.getElem?_append_right (Nat.le_add_right _ _), Nat.add_sub_cancel_left, he]
  · rw [List.getElem?_append_right (Nat.le_add_right _ _), Nat.add_sub_cancel_left, he']

theorem Diverge.ne {log log' : List ε} (h : Diverge log log') : log ≠ log' := by
  obtain ⟨i, e, e', he, he', hne⟩ := h
  rintro rfl
  exact hne (Option.some.inj (he.symm.trans he'))

/-- Two runs are the same, or something was lost; if the values used for what
was lost are `apart`, the logs then diverge. -/
def Coupled (lost : ε → Prop) (apart : Prop) (x x' : List ε × Option (Option α × σ)) : Prop :=
  (x = x' ∧ ∀ e ∈ x.1, ¬lost e) ∨ ((∃ e ∈ x.1, lost e) ∧ (apart → Diverge x.1 x'.1))

/-- What follows can only make the log longer. -/
theorem bind_longer (q : Traced ε σ α) (g : α → Traced ε σ β) (fuel : Nat) (s : σ) :
    ∃ more, ((q >>= g) fuel s).1 = (q fuel s).1 ++ more := by
  cases h : (q fuel s).2 with
  | none => exact ⟨[], by rw [bind_run_none h, List.append_nil]⟩
  | some r =>
      obtain ⟨a, s'⟩ := r
      cases a with
      | none => exact ⟨[], by rw [bind_run_fail h, List.append_nil]⟩
      | some a => exact ⟨_, by rw [bind_run h]⟩

/-- Runs stay coupled if those of the second part are. -/
theorem Coupled.bind {lost : ε → Prop} {apart : Prop} {q q' : Traced ε σ α}
    {g g' : α → Traced ε σ β} {fuel : Nat} {s : σ}
    (h : Coupled lost apart (q fuel s) (q' fuel s))
    (hg : ∀ a s', (q fuel s).2 = some (some a, s') →
      Coupled lost apart (g a fuel s') (g' a fuel s')) :
    Coupled lost apart ((q >>= g) fuel s) ((q' >>= g') fuel s) := by
  rcases h with ⟨hsame, hnone⟩ | ⟨⟨e, he, hlost⟩, hdiv⟩
  · cases hr : (q fuel s).2 with
    | none =>
        rw [bind_run_none hr, bind_run_none (hsame ▸ hr), ← hsame]
        exact .inl ⟨rfl, hnone⟩
    | some r =>
        obtain ⟨a, s'⟩ := r
        cases a with
        | none =>
            rw [bind_run_fail hr, bind_run_fail (hsame ▸ hr), ← hsame]
            exact .inl ⟨rfl, hnone⟩
        | some a =>
            rw [bind_run hr, bind_run (hsame ▸ hr), ← hsame]
            rcases hg a s' hr with ⟨hsame', hnone'⟩ | ⟨⟨e, he, hlost⟩, hdiv⟩
            · refine .inl ⟨by rw [hsame'], fun e he => ?_⟩
              exact (List.mem_append.1 he).elim (hnone e) (hnone' e)
            · exact .inr ⟨⟨e, List.mem_append_right _ he, hlost⟩,
                fun hapart => (hdiv hapart).append_left _⟩
  · refine .inr ⟨⟨e, mem_bind.2 (.inl he), hlost⟩, fun hapart => ?_⟩
    obtain ⟨more, hmore⟩ := bind_longer q g fuel s
    obtain ⟨more', hmore'⟩ := bind_longer q' g' fuel s
    rw [hmore, hmore']
    exact (hdiv hapart).append more more'

/-- Runs stay coupled whatever is made of their results. -/
theorem Coupled.map {lost : ε → Prop} {apart : Prop} {x x' : List ε × Option (Option α × σ)}
    (h : Coupled lost apart x x') (f : Option (Option α × σ) → Option (Option β × σ)) :
    Coupled lost apart (x.1, f x.2) (x'.1, f x'.2) := by
  rcases h with ⟨hsame, hnone⟩ | hlost
  · exact .inl ⟨by rw [hsame], hnone⟩
  · exact .inr hlost

/-! ## Following a plain parser -/

/-- What holds of a traced parser and its plain form `p`: it returns what `p`
does, everything it logs is `allowed`, and it is coupled to a second run. -/
structure Follows (allowed lost : ε → Prop) (apart : Prop) (p : Parser σ α)
    (q q' : Traced ε σ α) : Prop where
  erases : ∀ fuel s, (q fuel s).2 = p fuel s
  logs : ∀ fuel s, ∀ e ∈ (q fuel s).1, allowed e
  coupled : ∀ fuel s, Coupled lost apart (q fuel s) (q' fuel s)

/-- In addition, the parser fails exactly if it logs something `bad`. -/
structure Spec (allowed lost bad : ε → Prop) (apart : Prop) (p : Parser σ α)
    (q q' : Traced ε σ α) : Prop extends Follows allowed lost apart p q q' where
  fails : ∀ fuel s r s', (q fuel s).2 = some (r, s') → (r = none ↔ ∃ e ∈ (q fuel s).1, bad e)

variable {allowed lost bad : ε → Prop} {apart : Prop}

namespace Follows

protected theorem pure (a : α) : Follows allowed lost apart (pure a : Parser σ α) (pure a) (pure a)
    where
  erases _ _ := rfl
  logs _ _ _ h := nomatch h
  coupled _ _ := .inl ⟨rfl, fun _ h => nomatch h⟩

/-- A sequence, of which the first part returns only values with `post`. -/
theorem bind_of {p : Parser σ α} {f : α → Parser σ β} {q q' : Traced ε σ α}
    {g g' : α → Traced ε σ β} (post : α → Prop) (hp : Follows allowed lost apart p q q')
    (hpost : ∀ fuel s a s', p fuel s = some (some a, s') → post a)
    (hf : ∀ a, post a → Follows allowed lost apart (f a) (g a) (g' a)) :
    Follows allowed lost apart (p >>= f) (q >>= g) (q' >>= g') where
  erases fuel s := by
    have herases := hp.erases fuel s
    cases h : (q fuel s).2 with
    | none => rw [bind_run_none h, Parser.bind_run_none (herases.symm.trans h)]
    | some r =>
        obtain ⟨a, s'⟩ := r
        cases a with
        | none => rw [bind_run_fail h, Parser.bind_run_fail (herases.symm.trans h)]
        | some a =>
            have ha := herases.symm.trans h
            rw [bind_run h, Parser.bind_run ha, (hf a (hpost _ _ _ _ ha)).erases]
  logs fuel s e he := by
    rcases mem_bind.1 he with he | ⟨a, s', ha, he⟩
    · exact hp.logs fuel s e he
    · exact (hf a (hpost _ _ _ _ ((hp.erases fuel s).symm.trans ha))).logs fuel s' e he
  coupled fuel s := (hp.coupled fuel s).bind fun a s' ha =>
    (hf a (hpost _ _ _ _ ((hp.erases fuel s).symm.trans ha))).coupled fuel s'

protected theorem bind {p : Parser σ α} {f : α → Parser σ β} {q q' : Traced ε σ α}
    {g g' : α → Traced ε σ β} (hp : Follows allowed lost apart p q q')
    (hf : ∀ a, Follows allowed lost apart (f a) (g a) (g' a)) :
    Follows allowed lost apart (p >>= f) (q >>= g) (q' >>= g') :=
  bind_of (fun _ => True) hp (fun _ _ _ _ _ => trivial) fun a _ => hf a

/-- A parser that is observed. -/
protected theorem observe {p : Parser σ α} {events : σ → Option α → List ε}
    (h : ∀ fuel s r s', p fuel s = some (r, s') → ∀ e ∈ events s r, allowed e ∧ ¬lost e) :
    Follows allowed lost apart p (observe p events) (observe p events) where
  erases := observe_snd p events
  logs fuel s e he := by
    cases hrun : p fuel s with
    | none =>
        rw [observe_run_none hrun] at he
        cases he
    | some r =>
        rw [observe_run hrun] at he
        exact (h fuel s _ _ hrun e he).1
  coupled fuel s := by
    refine .inl ⟨rfl, fun e he => ?_⟩
    cases hrun : p fuel s with
    | none =>
        rw [observe_run_none hrun] at he
        cases he
    | some r =>
        rw [observe_run hrun] at he
        exact (h fuel s _ _ hrun e he).2

theorem mono {allowed' : ε → Prop} {p : Parser σ α} {q q' : Traced ε σ α}
    (h : Follows allowed lost apart p q q') (hallowed : ∀ e, allowed e → allowed' e) :
    Follows allowed' lost apart p q q' where
  erases := h.erases
  logs fuel s e he := hallowed e (h.logs fuel s e he)
  coupled := h.coupled

end Follows

namespace Spec

protected theorem pure (a : α) :
    Spec allowed lost bad apart (pure a : Parser σ α) (pure a) (pure a) where
  toFollows := Follows.pure a
  fails fuel s r s' h := by
    cases h
    exact ⟨fun h => (nomatch h), fun ⟨_, he, _⟩ => nomatch he⟩

/-- A sequence, of which the first part returns only values with `post`. -/
theorem bind_of {p : Parser σ α} {f : α → Parser σ β} {q q' : Traced ε σ α}
    {g g' : α → Traced ε σ β} (post : α → Prop) (hp : Spec allowed lost bad apart p q q')
    (hpost : ∀ fuel s a s', p fuel s = some (some a, s') → post a)
    (hf : ∀ a, post a → Spec allowed lost bad apart (f a) (g a) (g' a)) :
    Spec allowed lost bad apart (p >>= f) (q >>= g) (q' >>= g') where
  toFollows := hp.toFollows.bind_of post hpost fun a ha => (hf a ha).toFollows
  fails fuel s r s' h := by
    cases hq : (q fuel s).2 with
    | none =>
        rw [bind_run_none hq] at h
        cases h
    | some r₁ =>
        obtain ⟨a, s₁⟩ := r₁
        cases a with
        | none =>
            rw [bind_run_fail hq] at h ⊢
            cases h
            exact ⟨fun _ => (hp.fails fuel s none s' hq).1 rfl, fun _ => rfl⟩
        | some a =>
            have ha := hpost _ _ _ _ ((hp.erases fuel s).symm.trans hq)
            have hgood : ¬∃ e ∈ (q fuel s).1, bad e := fun hbad =>
              nomatch (hp.fails fuel s _ s₁ hq).2 hbad
            rw [bind_run hq] at h ⊢
            rw [(hf a ha).fails fuel s₁ r s' h]
            constructor
            · rintro ⟨e, he, hbad⟩
              exact ⟨e, List.mem_append_right _ he, hbad⟩
            · rintro ⟨e, he, hbad⟩
              rcases List.mem_append.1 he with he | he
              · exact absurd ⟨e, he, hbad⟩ hgood
              · exact ⟨e, he, hbad⟩

protected theorem bind {p : Parser σ α} {f : α → Parser σ β} {q q' : Traced ε σ α}
    {g g' : α → Traced ε σ β} (hp : Spec allowed lost bad apart p q q')
    (hf : ∀ a, Spec allowed lost bad apart (f a) (g a) (g' a)) :
    Spec allowed lost bad apart (p >>= f) (q >>= g) (q' >>= g') :=
  bind_of (fun _ => True) hp (fun _ _ _ _ _ => trivial) fun a _ => hf a

/-- A parser that logs nothing has to be one that never fails. -/
protected theorem silent {p : Parser σ α} (h : p.Unfailing) :
    Spec allowed lost bad apart p (silent p) (silent p) where
  erases _ _ := rfl
  logs _ _ _ h := nomatch h
  coupled _ _ := .inl ⟨rfl, fun _ h => nomatch h⟩
  fails fuel s r s' hrun := by
    refine ⟨fun hr => ?_, fun ⟨_, he, _⟩ => nomatch he⟩
    subst hr
    exact absurd hrun (h fuel s s')

/-- A parser that is observed, and whose failures are logged as `bad`. -/
protected theorem observe {p : Parser σ α} {events : σ → Option α → List ε}
    (h : ∀ fuel s r s', p fuel s = some (r, s') → ∀ e ∈ events s r, allowed e ∧ ¬lost e)
    (hbad : ∀ fuel s r s', p fuel s = some (r, s') → (r = none ↔ ∃ e ∈ events s r, bad e)) :
    Spec allowed lost bad apart p (observe p events) (observe p events) where
  toFollows := Follows.observe h
  fails fuel s r s' hr := by
    have hrun : p fuel s = some (r, s') := (observe_snd p events fuel s).symm.trans hr
    rw [observe_run hrun]
    exact hbad fuel s r s' hrun

/-- Logging changes nothing. -/
theorem emit_bind {e : ε} (hallowed : allowed e) (hlost : ¬lost e) (hbad : ¬bad e)
    {p : Parser σ α} {q q' : Traced ε σ α} (h : Spec allowed lost bad apart p q q') :
    Spec allowed lost bad apart p (emit e >>= fun _ => q) (emit e >>= fun _ => q') := by
  refine Spec.bind (p := (pure () : Parser σ Unit)) (f := fun _ => p) ?_ fun _ => h
  refine ⟨⟨fun _ _ => rfl, fun _ _ e' he => ?_, fun _ _ => .inl ⟨rfl, fun e' he => ?_⟩⟩,
    fun _ _ r _ hr => ?_⟩
  · rwa [List.mem_singleton.1 he]
  · rwa [List.mem_singleton.1 he]
  · cases hr
    refine ⟨fun h => (nomatch h), fun ⟨e', he, hbad'⟩ => ?_⟩
    rw [List.mem_singleton.1 he] at hbad'
    exact absurd hbad' hbad

protected theorem reject {e : ε} (hallowed : allowed e) (hlost : ¬lost e) (hbad : bad e) :
    Spec allowed lost bad apart (Parser.fail : Parser σ α) (reject e) (reject e) where
  erases _ _ := rfl
  logs _ _ e' he := by rwa [List.mem_singleton.1 he]
  coupled _ _ := .inl ⟨rfl, fun e' he => by rwa [List.mem_singleton.1 he]⟩
  fails _ _ r _ hr := by
    cases hr
    exact ⟨fun _ => ⟨e, List.mem_singleton_self e, hbad⟩, fun _ => rfl⟩

/-- A failure that nobody looks at must not be logged as `bad`: here `t` goes on
from `q` with a result in any case. -/
theorem regardless {p : Parser σ α} {q q' : Traced ε σ α} {p' : Parser σ β} {t t' : Traced ε σ β}
    (f : Option α → β)
    (hp : ∀ fuel s, p' fuel s = (p fuel s).map fun (r, s') => (some (f r), s'))
    (ht : ∀ fuel s, t fuel s =
      ((q fuel s).1, (q fuel s).2.map fun (r, s') => (some (f r), s')))
    (ht' : ∀ fuel s, t' fuel s =
      ((q' fuel s).1, (q' fuel s).2.map fun (r, s') => (some (f r), s')))
    (h : Follows (fun e => allowed e ∧ ¬bad e) lost apart p q q') :
    Spec allowed lost bad apart p' t t' where
  erases fuel s := by rw [ht, h.erases, hp]
  logs fuel s e he := by
    rw [ht] at he
    exact (h.logs fuel s e he).1
  coupled fuel s := by
    rw [ht, ht']
    exact (h.coupled fuel s).map _
  fails fuel s r s' hr := by
    rw [ht] at hr ⊢
    constructor
    · rintro rfl
      obtain ⟨_, _, hr⟩ := Option.map_eq_some_iff.1 hr
      cases hr
    · rintro ⟨e, he, hbad⟩
      exact absurd hbad (h.logs fuel s e he).2

protected theorem unchecked (old : α) {p : Parser σ α} {q q' : Traced ε σ α}
    (h : Follows (fun e => allowed e ∧ ¬bad e) lost apart p q q') :
    Spec allowed lost bad apart (p.unchecked old) (unchecked old q) (unchecked old q') :=
  regardless (·.getD old) (fun _ _ => rfl) (fun _ _ => rfl) (fun _ _ => rfl) h

protected theorem void {p : Parser σ α} {q q' : Traced ε σ α}
    (h : Follows (fun e => allowed e ∧ ¬bad e) lost apart p q q') :
    Spec allowed lost bad apart p.void (void q) (void q') :=
  regardless (fun _ => ()) (fun _ _ => rfl) (fun _ _ => rfl) (fun _ _ => rfl) h

protected theorem optionally {p : Parser σ Unit} {q q' : Traced ε σ Unit} (c : Bool)
    (h : c = true → Spec allowed lost bad apart p q q') :
    Spec allowed lost bad apart (Parser.optionally c p) (optionally c q) (optionally c q') := by
  cases c with
  | false => exact Spec.pure ()
  | true => exact h rfl

protected theorem times {p : Parser σ Unit} {q q' : Traced ε σ Unit} (n : Nat)
    (h : Spec allowed lost bad apart p q q') :
    Spec allowed lost bad apart (Parser.times n p) (times n q) (times n q') := by
  induction n with
  | zero => exact Spec.pure ()
  | succ n ih => exact h.bind fun _ => ih

theorem mono {allowed' : ε → Prop} {p : Parser σ α} {q q' : Traced ε σ α}
    (h : Spec allowed lost bad apart p q q') (hallowed : ∀ e, allowed e → allowed' e) :
    Spec allowed' lost bad apart p q q' where
  toFollows := h.toFollows.mono hallowed
  fails := h.fails

end Spec

end Traced
