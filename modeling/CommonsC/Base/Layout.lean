import CommonsC.Base.Traced

/-!
# CommonsC.Base.Layout

In what order the elements of a format stand in a stream of bits, apart from any
parser: a tree of fields of fixed width and of coded elements, in which the
values read so far decide what comes next.

`Layout.walk` goes through a stream along a layout, up to the first element
whose code is malformed.  `Reader.Along` ties a traced parser to a layout: what
the walk comes to is what the log of the parser tells.  It is proved along the
structure of the parser, by the rules below.
-/

open Parser Traced

/-- The elements `ι` of a format in their order, up to a value. -/
inductive Layout (ι α : Type)
  | done (a : α)
  /-- There is no going on from the values so far. -/
  | refused
  /-- A field of `n` bits. -/
  | bits (n : Nat) (rest : Nat → Layout ι α)
  /-- An element that has a code. -/
  | code (i : ι) (rest : Nat → Layout ι α)

namespace Layout

variable {ι σ α β : Type}

/-- One layout after the other. -/
protected def bind : Layout ι α → (α → Layout ι β) → Layout ι β
  | done a, f => f a
  | refused, _ => refused
  | bits n rest, f => bits n fun v => (rest v).bind f
  | code i rest, f => code i fun v => (rest v).bind f

instance : Monad (Layout ι) where
  pure := done
  bind := Layout.bind

theorem bind_done (l : Layout ι Unit) : (l >>= fun _ => done ()) = l := by
  induction l with
  | done a => rfl
  | refused => rfl
  | bits n rest ih => exact congrArg (bits n) (funext ih)
  | code i rest ih => exact congrArg (code i) (funext ih)

/-- The layout, if the condition holds. -/
def optionally (c : Bool) (l : Layout ι Unit) : Layout ι Unit := if c then l else pure ()

/-- The layout a number of times. -/
def times : Nat → Layout ι Unit → Layout ι Unit
  | 0, _ => pure ()
  | n + 1, l => do l; times n l

/-- What a walk comes to. -/
inductive Outcome (ι σ α : Type)
  | ended (a : α) (s : σ)
  | refused
  | malformed (i : ι)

/-- Go on after what a first walk came to. -/
def Outcome.andThen (g : α → σ → Option (Outcome ι σ β)) :
    Outcome ι σ α → Option (Outcome ι σ β)
  | ended a s => g a s
  | refused => some refused
  | malformed i => some (malformed i)

/-- The element that is malformed. -/
def Outcome.malformed? : Outcome ι σ α → Option ι
  | malformed i => some i
  | _ => none

/-- Go on after a code, if it is well formed. -/
def proceed (i : ι) (g : Nat → σ → Option (Outcome ι σ α)) :
    Option (Option (Nat × σ)) → Option (Outcome ι σ α)
  | none => none
  | some none => some (.malformed i)
  | some (some (v, s)) => g v s

section
variable (next : σ → Bool × σ) (decode : σ → Option (Option (Nat × σ)))

/-- Go through the bits of a source.  `decode` tells what code there is: none
that ever ends, a malformed one, or one with a value. -/
def walk : Layout ι α → σ → Option (Outcome ι σ α)
  | done a, s => some (.ended a s)
  | refused, _ => some .refused
  | bits n rest, s => walk (rest (Bits.toNat (peek next n s))) (advance next n s)
  | code i rest, s => proceed i (fun v s' => walk (rest v) s') (decode s)

theorem walk_bind (l : Layout ι α) (f : α → Layout ι β) (s : σ) :
    walk next decode (l >>= f) s =
      (walk next decode l s).bind (Outcome.andThen fun a s' => walk next decode (f a) s') := by
  induction l generalizing s with
  | done a => rfl
  | refused => rfl
  | bits n rest ih => exact ih _ _
  | code i rest ih =>
      show proceed i (fun v s' => walk next decode (rest v >>= f) s') (decode s) =
        (proceed i (fun v s' => walk next decode (rest v) s') (decode s)).bind _
      match decode s with
      | none => rfl
      | some none => rfl
      | some (some (v, s')) => exact ih v s'

end

/-! ## Which elements a layout has -/

/-- All elements have the property. -/
def Only (P : ι → Prop) : Layout ι α → Prop
  | done _ => True
  | refused => True
  | bits _ rest => ∀ v, (rest v).Only P
  | code i rest => P i ∧ ∀ v, (rest v).Only P

/-- No values are refused. -/
def Total : Layout ι α → Prop
  | done _ => True
  | refused => False
  | bits _ rest => ∀ v, (rest v).Total
  | code _ rest => ∀ v, (rest v).Total

variable {P : ι → Prop}

theorem Only.bind {l : Layout ι α} {f : α → Layout ι β} (hl : l.Only P)
    (hf : ∀ a, (f a).Only P) : (l >>= f).Only P := by
  induction l with
  | done a => exact hf a
  | refused => trivial
  | bits n rest ih => exact fun v => ih v (hl v)
  | code i rest ih => exact ⟨hl.1, fun v => ih v (hl.2 v)⟩

theorem Total.bind {l : Layout ι α} {f : α → Layout ι β} (hl : l.Total)
    (hf : ∀ a, (f a).Total) : (l >>= f).Total := by
  induction l with
  | done a => exact hf a
  | refused => exact hl.elim
  | bits n rest ih => exact fun v => ih v (hl v)
  | code i rest ih => exact fun v => ih v (hl v)

variable {next : σ → Bool × σ} {decode : σ → Option (Option (Nat × σ))}

/-- A walk comes only to elements of the layout. -/
theorem Only.of_malformed {l : Layout ι α} (hl : l.Only P) {s : σ} {i : ι}
    (h : walk next decode l s = some (.malformed i)) : P i := by
  induction l generalizing s with
  | done a => cases h
  | refused => cases h
  | bits n rest ih => exact ih _ (hl _) h
  | code j rest ih =>
      rw [walk] at h
      match hcode : decode s with
      | none =>
          rw [hcode] at h
          cases h
      | some none =>
          rw [hcode] at h
          cases h
          exact hl.1
      | some (some (v, s')) =>
          rw [hcode] at h
          exact ih v (hl.2 v) h

theorem Total.not_refused {l : Layout ι α} (hl : l.Total) {s : σ} :
    walk next decode l s ≠ some .refused := by
  intro h
  induction l generalizing s with
  | done a => cases h
  | refused => exact hl
  | bits n rest ih => exact ih _ (hl _) h
  | code j rest ih =>
      rw [walk] at h
      match hcode : decode s with
      | none =>
          rw [hcode] at h
          cases h
      | some none =>
          rw [hcode] at h
          cases h
      | some (some (v, s')) =>
          rw [hcode] at h
          exact ih v (hl v) h

end Layout

/-! ## Following a layout -/

/-- How the parsers of a format read, and what they log. -/
structure Reader (ι ε σ : Type) where
  next : σ → Bool × σ
  /-- The code in a source, found with some fuel. -/
  decode : Nat → σ → Option (Option (Nat × σ))
  /-- The event is not the failure of a read. -/
  clean : ε → Prop
  /-- The event is the failure to read the element. -/
  failure : ι → ε → Prop
  /-- A parser fails with the read of the element. -/
  checked : ι → Prop

namespace Reader

open Layout (Outcome)

variable {ι ε σ α β : Type} (R : Reader ι ε σ)

/-- What a run tells of a walk.  If it came to a malformed code, the first read
that failed was that one, and with a checked element it was the end. -/
inductive Tells : Outcome ι σ α → List ε → Option α → σ → Prop
  | ended {log : List ε} {a : α} {s : σ} (h : ∀ e ∈ log, R.clean e) :
      Tells (.ended a s) log (some a) s
  | refused {log : List ε} {s : σ} (h : ∀ e ∈ log, R.clean e) : Tells .refused log none s
  | malformed {i : ι} {before after : List ε} {e : ε} {r : Option α} {s : σ}
      (hbefore : ∀ e ∈ before, R.clean e) (hfail : R.failure i e)
      (hchecked : R.checked i → after = [] ∧ r = none) :
      Tells (.malformed i) (before ++ e :: after) r s

/-- Each run of the parser that ends tells what the walk comes to. -/
def Along (q : Traced ε σ α) (l : Layout ι α) : Prop :=
  ∀ fuel s log r s', q fuel s = (log, some (r, s')) →
    ∃ o, l.walk R.next (R.decode fuel) s = some o ∧ R.Tells o log r s'

variable {R}

/-- Nothing failed before. -/
theorem Tells.append_left {o : Outcome ι σ α} {log : List ε} {r : Option α} {s : σ}
    (h : R.Tells o log r s) {front : List ε} (hfront : ∀ e ∈ front, R.clean e) :
    R.Tells o (front ++ log) r s := by
  have hboth : ∀ {more : List ε}, (∀ e ∈ more, R.clean e) → ∀ e ∈ front ++ more, R.clean e :=
    fun hmore e he => (List.mem_append.1 he).elim (hfront e) (hmore e)
  cases h with
  | ended hlog => exact .ended (hboth hlog)
  | refused hlog => exact .refused (hboth hlog)
  | malformed hbefore hfail hchecked =>
      rw [← List.append_assoc]
      exact .malformed (hboth hbefore) hfail hchecked

/-- If a malformed code was passed over, it does not matter what comes after. -/
theorem Tells.append_right {i : ι} {log : List ε} {a : α} {s s' : σ}
    (h : R.Tells (.malformed i : Outcome ι σ α) log (some a) s) (more : List ε) (r : Option β) :
    R.Tells (.malformed i : Outcome ι σ β) (log ++ more) r s' := by
  cases h with
  | malformed hbefore hfail hchecked =>
      rw [List.append_assoc, List.cons_append]
      exact .malformed hbefore hfail fun hi => nomatch (hchecked hi).2

namespace Along

variable {q : Traced ε σ α} {l : Layout ι α}

protected theorem pure (a : α) : R.Along (pure a) (pure a) := by
  rintro fuel s log r s' ⟨⟩
  exact ⟨_, rfl, .ended fun e he => nomatch he⟩

protected theorem bind {f : α → Traced ε σ β} {g : α → Layout ι β} (hq : R.Along q l)
    (hf : ∀ a, R.Along (f a) (g a)) : R.Along (q >>= f) (l >>= g) := by
  intro fuel s log r s' hrun
  rw [Layout.walk_bind]
  match hfirst : q fuel s with
  | (front, none) =>
      rw [bind_run_none (congrArg Prod.snd hfirst)] at hrun
      cases hrun
  | (front, some (none, s₁)) =>
      rw [bind_run_fail (congrArg Prod.snd hfirst), hfirst] at hrun
      cases hrun
      obtain ⟨o, ho, htells⟩ := hq _ _ _ _ _ hfirst
      rw [ho]
      cases htells with
      | refused hlog => exact ⟨_, rfl, .refused hlog⟩
      | malformed hbefore hfail hchecked =>
          exact ⟨_, rfl, .malformed hbefore hfail fun hi => ⟨(hchecked hi).1, rfl⟩⟩
  | (front, some (some a, s₁)) =>
      rw [bind_run (congrArg Prod.snd hfirst), hfirst] at hrun
      obtain ⟨o, ho, htells⟩ := hq _ _ _ _ _ hfirst
      obtain ⟨hlog, hsecond⟩ := Prod.mk.inj hrun
      subst hlog
      rw [ho]
      match o, htells with
      | .ended _ _, .ended hfront =>
          obtain ⟨o₂, ho₂, htells₂⟩ := hf a fuel s₁ _ r s' (Prod.ext rfl hsecond)
          exact ⟨o₂, ho₂, htells₂.append_left hfront⟩
      | .malformed i, htells => exact ⟨_, rfl, htells.append_right _ r⟩

protected theorem emit {e : ε} (he : R.clean e) : R.Along (emit e) (pure ()) := by
  rintro fuel s log r s' ⟨⟩
  exact ⟨_, rfl, .ended fun e' he' => List.mem_singleton.1 he' ▸ he⟩

/-- What is logged is no part of the layout. -/
theorem emit_bind {e : ε} {f : Unit → Traced ε σ β} {l : Layout ι β} (he : R.clean e)
    (h : R.Along (f ()) l) : R.Along (emit e >>= f) l :=
  (Along.emit he).bind fun _ => h

protected theorem reject {e : ε} (he : R.clean e) : R.Along (reject e : Traced ε σ α) .refused := by
  rintro fuel s log r s' ⟨⟩
  exact ⟨_, rfl, .refused fun e' he' => List.mem_singleton.1 he' ▸ he⟩

/-- A parser that logs nothing, and reads a field. -/
theorem field {p : Parser σ α} {n : Nat} {f : Nat → α} (h : ∀ fuel s, p fuel s =
    some (some (f (Bits.toNat (peek R.next n s))), advance R.next n s)) :
    R.Along (silent p) (.bits n fun v => .done (f v)) := by
  intro fuel s log r s' hrun
  rw [silent, h] at hrun
  cases hrun
  exact ⟨_, rfl, .ended fun e he => nomatch he⟩

theorem silent_bind {p : Parser σ α} {f : α → Parser σ β} {g : α → Layout ι β}
    (hp : R.Along (silent p) l) (hf : ∀ a, R.Along (silent (f a)) (g a)) :
    R.Along (silent (p >>= f)) (l >>= g) := by
  have hsame : (silent (p >>= f) : Traced ε σ β) = silent p >>= fun a => silent (f a) := by
    funext fuel s
    show ([], (p >>= f) fuel s) = _
    cases h : p fuel s with
    | none => rw [Parser.bind_run_none h, bind_run_none (q := silent p) h, silent]
    | some out =>
        obtain ⟨r, s'⟩ := out
        cases r with
        | none => rw [Parser.bind_run_fail h, bind_run_fail (q := silent p) h, silent]
        | some a =>
            rw [Parser.bind_run h, bind_run (q := silent p) h, silent, silent]
            rfl
  rw [hsame]
  exact hp.bind hf

theorem silent_optionally {p : Parser σ Unit} {l : Layout ι Unit} (c : Bool)
    (hp : R.Along (silent p) l) :
    R.Along (silent (Parser.optionally c p)) (Layout.optionally c l) := by
  cases c with
  | false => exact Along.pure ()
  | true => exact hp

/-- A read of an element that is checked. -/
theorem observe {p : Parser σ Nat} {i : ι} {events : σ → Option Nat → List ε}
    (h : ∀ fuel s r s', p fuel s = some (r, s') → ∃ e, events s r = [e] ∧
      ((∃ v, r = some v ∧ R.decode fuel s = some (some (v, s')) ∧ R.clean e) ∨
        (r = none ∧ R.decode fuel s = some none ∧ R.failure i e))) :
    R.Along (observe p events) (.code i .done) := by
  intro fuel s log r s' hrun
  match hp : p fuel s with
  | none =>
      rw [observe_run_none hp] at hrun
      cases hrun
  | some (r₁, s₁) =>
      rw [observe_run hp] at hrun
      cases hrun
      obtain ⟨e, he, ⟨v, rfl, hcode, hclean⟩ | ⟨rfl, hcode, hfail⟩⟩ := h _ _ _ _ hp
      · refine ⟨.ended v s', ?_, ?_⟩
        · rw [Layout.walk, hcode]
          rfl
        · rw [he]
          exact .ended fun e' he' => List.mem_singleton.1 he' ▸ hclean
      · refine ⟨.malformed i, ?_, ?_⟩
        · rw [Layout.walk, hcode]
          rfl
        · rw [he, ← List.nil_append [e]]
          exact .malformed (fun e he => nomatch he) hfail fun _ => ⟨rfl, rfl⟩

/-- What goes on in any case must not be told by a checked element, or by a
value that is refused. -/
theorem regardless {t : Traced ε σ β} {f : Option α → β}
    (ht : ∀ fuel s, t fuel s = ((q fuel s).1, (q fuel s).2.map fun (r, s') => (some (f r), s')))
    (honly : l.Only fun i => ¬R.checked i) (htotal : l.Total) (hq : R.Along q l) :
    R.Along t (l >>= fun a => .done (f (some a))) := by
  intro fuel s log r s' hrun
  rw [ht] at hrun
  rw [Layout.walk_bind]
  match hfirst : q fuel s with
  | (log₁, none) =>
      rw [hfirst] at hrun
      cases hrun
  | (log₁, some (r₁, s₁)) =>
      rw [hfirst] at hrun
      cases hrun
      obtain ⟨o, ho, htells⟩ := hq _ _ _ _ _ hfirst
      rw [ho]
      cases htells with
      | ended hlog => exact ⟨_, rfl, .ended hlog⟩
      | refused hlog => exact absurd ho htotal.not_refused
      | malformed hbefore hfail hchecked =>
          exact ⟨_, rfl, .malformed hbefore hfail fun hi => absurd hi (honly.of_malformed ho)⟩

protected theorem void (honly : l.Only fun i => ¬R.checked i) (htotal : l.Total)
    (hq : R.Along q l) : R.Along (void q) (l >>= fun _ => .done ()) :=
  regardless (f := fun _ => ()) (fun _ _ => rfl) honly htotal hq

protected theorem unchecked (old : α) (honly : l.Only fun i => ¬R.checked i) (htotal : l.Total)
    (hq : R.Along q l) : R.Along (unchecked old q) (l >>= .done) :=
  regardless (f := (·.getD old)) (fun _ _ => rfl) honly htotal hq

protected theorem optionally {q : Traced ε σ Unit} {l : Layout ι Unit} (c : Bool)
    (hq : R.Along q l) : R.Along (optionally c q) (l.optionally c) := by
  cases c with
  | false => exact Along.pure ()
  | true => exact hq

protected theorem times {q : Traced ε σ Unit} {l : Layout ι Unit} (n : Nat)
    (hq : R.Along q l) : R.Along (times n q) (Layout.times n l) := by
  induction n with
  | zero => exact Along.pure ()
  | succ n ih => exact hq.bind fun _ => ih

/-- If a parser fails that goes on without failing from some place, then the
first malformed code is not behind this place. -/
theorem of_bind_fails {f : α → Traced ε σ β} (hq : R.Along q l) (hf : ∀ a, (f a).NeverFails)
    {fuel : Nat} {s s' : σ} {log : List ε} (hrun : (q >>= f) fuel s = (log, some (none, s')))
    {g : α → Layout ι β} {P : ι → Prop} (honly : l.Only P) {i : ι}
    (hfirst : (l >>= g).walk R.next (R.decode fuel) s = some (.malformed i)) : P i := by
  rw [Layout.walk_bind] at hfirst
  match hfront : q fuel s with
  | (front, none) =>
      rw [bind_run_none (congrArg Prod.snd hfront)] at hrun
      cases hrun
  | (front, some (some a, s₁)) =>
      rw [bind_run (congrArg Prod.snd hfront)] at hrun
      exact absurd (congrArg Prod.snd hrun) (hf a fuel s₁ s')
  | (front, some (none, s₁)) =>
      obtain ⟨o, ho, htells⟩ := hq _ _ _ _ _ hfront
      rw [ho] at hfirst
      cases htells with
      | refused _ => cases hfirst
      | malformed _ _ _ =>
          cases hfirst
          exact honly.of_malformed ho

end Along

end Reader
