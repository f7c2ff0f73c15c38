import CommonsC.Base.Bits

/-!
# CommonsC.Base.BitParser

Parsers over a source of bits, as imperative code has them.  A parser changes
the source's state, can report failure, and has loops without a bound, for
which it is given fuel.  A caller can also carry on after a failure, with the
variable it wanted to fill left as it was (`unchecked`).

`Parses p bits a` is the statement to prove of a parser: on every source that
yields `bits`, it returns `a` and consumes exactly these bits.  The rules
`Parses.bind`, `Parses.optionally`, … follow the parser's own structure, so that
the proof that a parser reads an encoding is the list of its parts.
-/

universe u

/-- A parser: given fuel and a source, `none` when the fuel runs out, and
otherwise the result (`none` for a reported failure) with the source after it. -/
def Parser (σ : Type) (α : Type) : Type := Nat → σ → Option (Option α × σ)

namespace Parser

variable {σ α β : Type}

instance : Monad (Parser σ) where
  pure a := fun _ s => some (some a, s)
  bind p f := fun fuel s =>
    match p fuel s with
    | none => none
    | some (none, s') => some (none, s')
    | some (some a, s') => f a fuel s'

/-- Report failure. -/
def fail : Parser σ α := fun _ s => some (none, s)

/-- Carry on after a failure, with the old value. -/
def unchecked (old : α) (p : Parser σ α) : Parser σ α := fun fuel s =>
  (p fuel s).map fun (r, s') => (some (r.getD old), s')

/-- Carry on whatever the result. -/
def void (p : Parser σ α) : Parser σ Unit := fun fuel s =>
  (p fuel s).map fun (_, s') => (some (), s')

/-- Run the parser if the condition holds. -/
def optionally (c : Bool) (p : Parser σ Unit) : Parser σ Unit := if c then p else pure ()

/-- Run the parser a number of times. -/
def times : Nat → Parser σ Unit → Parser σ Unit
  | 0, _ => pure ()
  | n + 1, p => do p; times n p

theorem pure_run (a : α) (fuel : Nat) (s : σ) :
    (pure a : Parser σ α) fuel s = some (some a, s) := rfl

/-- Running on after a result. -/
theorem bind_run {p : Parser σ α} {f : α → Parser σ β} {fuel : Nat} {s s' : σ} {a : α}
    (h : p fuel s = some (some a, s')) : (p >>= f) fuel s = f a fuel s' := by
  show (match p fuel s with | none => _ | some (none, s') => _ | some (some a, s') => _) = _
  rw [h]

/-- Running on when the fuel ran out. -/
theorem bind_run_none {p : Parser σ α} {f : α → Parser σ β} {fuel : Nat} {s : σ}
    (h : p fuel s = none) : (p >>= f) fuel s = none := by
  show (match p fuel s with | none => _ | some (none, s') => _ | some (some a, s') => _) = _
  rw [h]

/-- Ending when the first part failed. -/
theorem bind_run_fail {p : Parser σ α} {f : α → Parser σ β} {fuel : Nat} {s s' : σ}
    (h : p fuel s = some (none, s')) : (p >>= f) fuel s = some (none, s') := by
  show (match p fuel s with | none => _ | some (none, s') => _ | some (some a, s') => _) = _
  rw [h]

/-- A sequence returns what its second part does. -/
theorem bind_eq_some {p : Parser σ α} {f : α → Parser σ β} {fuel : Nat} {s s' : σ} {b : β}
    (h : (p >>= f) fuel s = some (some b, s')) :
    ∃ a s₁, p fuel s = some (some a, s₁) ∧ f a fuel s₁ = some (some b, s') := by
  cases hp : p fuel s with
  | none =>
      rw [bind_run_none hp] at h
      cases h
  | some r =>
      obtain ⟨a, s₁⟩ := r
      cases a with
      | none =>
          rw [bind_run_fail hp] at h
          cases h
      | some a => exact ⟨a, s₁, rfl, (bind_run hp).symm.trans h⟩

/-- A computed value is returned as it is. -/
theorem eq_of_pure_run {a b : α} {fuel : Nat} {s s' : σ}
    (h : (pure a : Parser σ α) fuel s = some (some b, s')) : a = b :=
  Option.some.inj (congrArg Prod.fst (Option.some.inj h))

instance : LawfulMonad (Parser σ) := by
  refine LawfulMonad.mk' _ (fun p => ?_) (fun a f => rfl) (fun p f g => ?_)
  · funext fuel s
    show (p >>= fun a => pure a) fuel s = p fuel s
    cases h : p fuel s with
    | none => exact bind_run_none h
    | some r =>
        obtain ⟨a, s'⟩ := r
        cases a with
        | none => exact bind_run_fail h
        | some a => exact bind_run h
  · funext fuel s
    cases h : p fuel s with
    | none => rw [bind_run_none (bind_run_none h), bind_run_none h]
    | some r =>
        obtain ⟨a, s'⟩ := r
        cases a with
        | none => rw [bind_run_fail (bind_run_fail h), bind_run_fail h]
        | some a =>
            rw [bind_run h]
            have hrest : ((p >>= f) fuel s) = f a fuel s' := bind_run h
            cases h' : f a fuel s' with
            | none => rw [bind_run_none (hrest.trans h'), bind_run_none h']
            | some r =>
                obtain ⟨b, s''⟩ := r
                cases b with
                | none => rw [bind_run_fail (hrest.trans h'), bind_run_fail h']
                | some b => rw [bind_run (hrest.trans h'), bind_run h']

/-! ## What is returned -/

/-- Every value that the parser returns meets `P`. -/
def Ensures (P : α → Prop) (p : Parser σ α) : Prop :=
  ∀ fuel s a s', p fuel s = some (some a, s') → P a

namespace Ensures

variable {P : β → Prop}

protected theorem pure {b : β} (h : P b) : Ensures P (pure b : Parser σ β) :=
  fun _ _ _ _ hrun => eq_of_pure_run hrun ▸ h

protected theorem fail : Ensures P (fail : Parser σ β) := fun _ _ _ _ hrun => nomatch hrun

protected theorem bind {Q : α → Prop} {p : Parser σ α} {f : α → Parser σ β} (hp : Ensures Q p)
    (hf : ∀ a, Q a → Ensures P (f a)) : Ensures P (p >>= f) := by
  intro fuel s b s' h
  obtain ⟨a, s₁, hrun, hrest⟩ := bind_eq_some h
  exact hf a (hp fuel s a s₁ hrun) fuel s₁ b s' hrest

/-- It does not matter what comes before. -/
theorem after {p : Parser σ α} {f : α → Parser σ β} (hf : ∀ a, Ensures P (f a)) :
    Ensures P (p >>= f) :=
  Ensures.bind (Q := fun _ => True) (fun _ _ _ _ _ => trivial) fun a _ => hf a

end Ensures

/-! ## Parsers that never fail -/

/-- The parser never reports failure. -/
def Unfailing (p : Parser σ α) : Prop := ∀ fuel s s', p fuel s ≠ some (none, s')

namespace Unfailing

protected theorem pure (a : α) : Unfailing (pure a : Parser σ α) := fun _ _ _ h => nomatch h

protected theorem bind {p : Parser σ α} {f : α → Parser σ β} (hp : p.Unfailing)
    (hf : ∀ a, (f a).Unfailing) : Unfailing (p >>= f) := by
  intro fuel s s' h
  cases hrun : p fuel s with
  | none =>
      rw [bind_run_none hrun] at h
      cases h
  | some r =>
      obtain ⟨a, s₁⟩ := r
      cases a with
      | none => exact hp fuel s s₁ hrun
      | some a =>
          rw [bind_run hrun] at h
          exact hf a fuel s₁ s' h

protected theorem unchecked (old : α) (p : Parser σ α) : Unfailing (p.unchecked old) := by
  intro fuel s s' h
  obtain ⟨_, _, h⟩ := Option.map_eq_some_iff.1 h
  cases h

protected theorem void (p : Parser σ α) : Unfailing p.void := by
  intro fuel s s' h
  obtain ⟨_, _, h⟩ := Option.map_eq_some_iff.1 h
  cases h

protected theorem optionally {p : Parser σ Unit} (c : Bool) (h : p.Unfailing) :
    Unfailing (optionally c p) := by
  cases c with
  | false => exact Unfailing.pure ()
  | true => exact h

protected theorem times {p : Parser σ Unit} (n : Nat) (h : p.Unfailing) :
    Unfailing (times n p) := by
  induction n with
  | zero => exact Unfailing.pure ()
  | succ n ih => exact h.bind fun _ => ih

end Unfailing

/-! ## Sources of bits -/

section
variable (next : σ → Bool × σ)

/-- The source after `n` bits. -/
def advance : Nat → σ → σ
  | 0, s => s
  | n + 1, s => advance n (next s).2

/-- The next `n` bits of the source. -/
def peek : Nat → σ → List Bool
  | 0, _ => []
  | n + 1, s => (next s).1 :: peek n (next s).2

/-- The source yields `bits` next. -/
def Yields (s : σ) (bits : List Bool) : Prop := peek next bits.length s = bits

instance (s : σ) (bits : List Bool) : Decidable (Yields next s bits) :=
  inferInstanceAs (Decidable (peek next bits.length s = bits))

@[simp] theorem length_peek (n : Nat) (s : σ) : (peek next n s).length = n := by
  induction n generalizing s with
  | zero => rfl
  | succ n ih => rw [peek, List.length_cons, ih]

theorem advance_add (m n : Nat) (s : σ) :
    advance next (m + n) s = advance next n (advance next m s) := by
  induction m generalizing s with
  | zero => rw [Nat.zero_add, advance]
  | succ m ih => rw [Nat.add_right_comm, advance, ih, advance]

theorem peek_add (m n : Nat) (s : σ) :
    peek next (m + n) s = peek next m s ++ peek next n (advance next m s) := by
  induction m generalizing s with
  | zero => rw [Nat.zero_add, peek, List.nil_append, advance]
  | succ m ih => rw [Nat.add_right_comm, peek, ih, peek, List.cons_append, advance]

theorem yields_peek (n : Nat) (s : σ) : Yields next s (peek next n s) := by
  rw [Yields, length_peek]

@[simp] theorem yields_nil (s : σ) : Yields next s [] := rfl

@[simp] theorem yields_cons (s : σ) (b : Bool) (bits : List Bool) :
    Yields next s (b :: bits) ↔ (next s).1 = b ∧ Yields next (next s).2 bits := by
  simp [Yields, peek]

theorem yields_append (s : σ) (as bs : List Bool) :
    Yields next s (as ++ bs) ↔ Yields next s as ∧ Yields next (advance next as.length s) bs := by
  rw [Yields, Yields, Yields, List.length_append, peek_add]
  constructor
  · intro h
    have hlen : (peek next as.length s).length = as.length := length_peek next _ _
    exact List.append_inj h hlen
  · rintro ⟨ha, hb⟩
    rw [ha, hb]

/-! ## Parsing an encoding -/

/-- On every source that yields `bits` the parser returns `a` and consumes
exactly these bits, if only it is given `enough` fuel. -/
def Parses (enough : Nat) (p : Parser σ α) (bits : List Bool) (a : α) : Prop :=
  ∀ fuel s, Yields next s bits →
    p fuel s = some (some a, advance next bits.length s) ∨ fuel < enough ∧ p fuel s = none

end

variable {next : σ → Bool × σ} {enough : Nat}

namespace Parses

/-- A parser that ends gave the encoded value. -/
theorem eq_some {p : Parser σ α} {bits : List Bool} {a : α} (h : Parses next enough p bits a)
    {fuel : Nat} {s : σ} (hs : Yields next s bits) (hfuel : enough ≤ fuel) :
    p fuel s = some (some a, advance next bits.length s) :=
  (h fuel s hs).resolve_right fun h => Nat.not_lt_of_le hfuel h.1

/-- What ends after a parsed encoding went on from its value. -/
theorem of_bind {p : Parser σ α} {f : α → Parser σ β} {bits : List Bool} {a : α}
    (h : Parses next enough p bits a) {fuel : Nat} {s : σ} {r : Option β × σ}
    (hs : Yields next s bits) (hr : (p >>= f) fuel s = some r) :
    f a fuel (advance next bits.length s) = some r := by
  rcases h fuel s hs with hp | ⟨_, hp⟩
  · rwa [bind_run hp] at hr
  · rw [bind_run_none hp] at hr
    cases hr

protected theorem pure (a : α) : Parses next enough (pure a : Parser σ α) [] a :=
  fun _ _ _ => .inl rfl

protected theorem bind {p : Parser σ α} {f : α → Parser σ β} {as bs : List Bool} {a : α} {b : β}
    (hp : Parses next enough p as a) (hf : Parses next enough (f a) bs b) :
    Parses next enough (p >>= f) (as ++ bs) b := by
  intro fuel s hs
  obtain ⟨ha, hb⟩ := (yields_append next s as bs).1 hs
  rw [List.length_append, advance_add]
  rcases hp fuel s ha with hp | ⟨hfuel, hp⟩
  · rw [bind_run hp]
    exact hf fuel _ hb
  · rw [bind_run_none hp]
    exact .inr ⟨hfuel, rfl⟩

/-- The last step of a parser that only computes. -/
theorem bind_pure {p : Parser σ α} {f : α → Parser σ β} {bits : List Bool} {a : α} {b : β}
    (hp : Parses next enough p bits a) (hf : f a = pure b) :
    Parses next enough (p >>= f) bits b := by
  have := hp.bind (f := f) (hf ▸ Parses.pure b)
  rwa [List.append_nil] at this

protected theorem unchecked {p : Parser σ α} {bits : List Bool} {a : α} (old : α)
    (h : Parses next enough p bits a) : Parses next enough (unchecked old p) bits a := by
  intro fuel s hs
  rcases h fuel s hs with hp | ⟨hfuel, hp⟩
  · exact .inl (by rw [unchecked, hp]; rfl)
  · exact .inr ⟨hfuel, by rw [unchecked, hp]; rfl⟩

protected theorem void {p : Parser σ α} {bits : List Bool} {a : α}
    (h : Parses next enough p bits a) : Parses next enough (void p) bits () := by
  intro fuel s hs
  rcases h fuel s hs with hp | ⟨hfuel, hp⟩
  · exact .inl (by rw [void, hp]; rfl)
  · exact .inr ⟨hfuel, by rw [void, hp]; rfl⟩

protected theorem optionally {p : Parser σ Unit} {bits : List Bool} (c : Bool)
    (h : c = true → Parses next enough p bits ()) :
    Parses next enough (optionally c p) (if c then bits else []) () := by
  cases c with
  | false => exact Parses.pure ()
  | true => exact h rfl

/-- One encoding after the other. -/
protected theorem times {p : Parser σ Unit} {γ : Type u} {enc : γ → List Bool} (xs : List γ)
    (h : ∀ x ∈ xs, Parses next enough p (enc x) ()) :
    Parses next enough (times xs.length p) (xs.flatMap enc) () := by
  induction xs with
  | nil => exact Parses.pure ()
  | cons x xs ih =>
      exact (h x (by simp)).bind (ih fun y hy => h y (List.mem_cons_of_mem x hy))

end Parses

end Parser
