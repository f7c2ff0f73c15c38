import CommonsC.VersionInfo.Compare
import Mathlib.Data.List.Forall2

/-!
# CommonsC.VersionInfo.Constraints

The language of constraint lists, and when `version_constraints_parse` accepts
it and nothing else.

The operand is what stands between the spaces and the last operand character,
and its length is narrowed to an `int`: from 2^31 characters on the parser can
take it for a short one.
-/

namespace CommonsC.Version

open CString Numeral

/-! ## The language -/

/-- The operands as they are written. -/
def operands : List (List UInt8 × Operand) :=
  [([], .equals), (ascii "=", .equals), (ascii "<", .lesserThan), (ascii ">", .greaterThan),
    (ascii ">=", .greaterEquals), (ascii "<=", .lesserEquals), (ascii "<>", .notEquals)]

/-- A piece of a list: spaces, an operand, and a rest that has no more operand
characters and begins with a number. -/
def IsConstraint (piece : List UInt8) : Prop :=
  ∃ spaces op operand rest, piece = List.replicate spaces 32 ++ (op ++ rest) ∧
    (op, operand) ∈ operands ∧ (∀ b ∈ rest, b ∉ operandChars) ∧ (strtol rest).2 ≠ rest

/-- A piece of a list, and the constraint it stands for. -/
inductive ConstraintText : List UInt8 → VersionConstraint → Prop
  | mk (spaces : Nat) {op rest : List UInt8} {operand : Operand} {version : VersionInfo} :
      (op, operand) ∈ operands → (∀ b ∈ rest, b ∉ operandChars) →
      versionInfoParse rest = some version →
      ConstraintText (List.replicate spaces 32 ++ (op ++ rest)) ⟨version, operand⟩

theorem isConstraint_iff {piece : List UInt8} :
    IsConstraint piece ↔ ∃ constraint, ConstraintText piece constraint := by
  constructor
  · rintro ⟨spaces, op, operand, rest, rfl, hop, hrest, hnum⟩
    obtain ⟨version, hversion⟩ := Option.isSome_iff_exists.1 (versionInfoParse_isSome.2 hnum)
    exact ⟨_, .mk spaces hop hrest hversion⟩
  · rintro ⟨_, ⟨spaces, hop, hrest, hversion⟩⟩
    exact ⟨spaces, _, _, _, rfl, hop, hrest, versionInfoParse_isSome.1 (by rw [hversion]; rfl)⟩

/-! ## One piece -/

/-- What is between `value` and `cur`, and what is behind `cur`. -/
theorem operandPart_append (value : List UInt8) :
    operandPart value ++ afterLast operandChars value = value := by
  obtain ⟨before, heq, -⟩ := afterLast_spec operandChars value
  have hlen := congrArg List.length heq
  rw [List.length_append] at hlen
  have hpart : operandPart value = before := by
    rw [operandPart, hlen, Nat.add_sub_cancel]
    conv => lhs; rw [heq]
    exact List.take_left
  rw [hpart, ← heq]

theorem operandPart_of_append (part rest : List UInt8)
    (hpart : ∀ b ∈ part.getLast?, b ∈ operandChars) (hrest : ∀ b ∈ rest, b ∉ operandChars) :
    operandPart (part ++ rest) = part ∧ afterLast operandChars (part ++ rest) = rest := by
  have hcur := afterLast_append hrest hpart
  refine ⟨?_, hcur⟩
  rw [operandPart, hcur, List.length_append, Nat.add_sub_cancel, List.take_left]

theorem mem_operands_iff {part : List UInt8} {operand : Operand} :
    (part, operand) ∈ operands ↔ operandOf part.length part = some operand := by
  constructor
  · intro h
    simp only [operands, List.mem_cons, List.not_mem_nil, or_false, Prod.mk.injEq] at h
    rcases h with ⟨rfl, rfl⟩ | ⟨rfl, rfl⟩ | ⟨rfl, rfl⟩ | ⟨rfl, rfl⟩ | ⟨rfl, rfl⟩ | ⟨rfl, rfl⟩ |
      ⟨rfl, rfl⟩ <;> decide
  · intro h
    rw [operandOf] at h
    match part with
    | [] =>
        cases h
        exact List.mem_cons_self
    | [a] =>
        have hlen : (([a] : List UInt8).length : Int) = 1 := rfl
        rw [hlen, if_neg (by decide), if_neg (by decide), if_pos rfl] at h
        simp only [List.getLast?_singleton, Option.some.injEq] at h
        split at h
        · next ha => subst ha; cases h; decide
        · split at h
          · next ha => subst ha; cases h; decide
          · split at h
            · next ha => subst ha; cases h; decide
            · cases h
    | [a, b] =>
        have hlen : (([a, b] : List UInt8).length : Int) = 2 := rfl
        have hdrop : ([a, b] : List UInt8).drop (([a, b] : List UInt8).length - 2) = [a, b] := rfl
        rw [hlen, if_neg (by decide), if_pos rfl, hdrop] at h
        simp only at h
        split at h
        · next hop => rw [hop]; cases h; decide
        · split at h
          · next hop => rw [hop]; cases h; decide
          · split at h
            · next hop => rw [hop]; cases h; decide
            · cases h
    | a :: b :: c :: part =>
        have hlong : ((a :: b :: c :: part).length : Int) > 2 := by
          simp only [List.length_cons]
          omega
        rw [if_pos hlong] at h
        cases h

/-- An operand of reasonable length is one of `operands`. -/
theorem operandOf_eq_some {part : List UInt8} {operand : Operand} (h : part.length < 2 ^ 31) :
    operandOf (toInt part.length) part = some operand ↔ (part, operand) ∈ operands := by
  rw [toInt_of_lt h, mem_operands_iff]

theorem versionInfoParse_skipSpaces (rest : List UInt8) :
    versionInfoParse (skipSpaces rest) = versionInfoParse rest := by
  have hspace : ∀ b : UInt8, (b == 32) = true → isSpace b = true := by
    intro b hb
    rw [eq_of_beq hb]
    rfl
  have hscan : scan (skipSpaces rest) = scan rest := by
    induction rest with
    | nil => rfl
    | cons b rest ih =>
        rw [skipSpaces, List.dropWhile_cons]
        split
        · next hb =>
            rw [← skipSpaces, ih, scan, scan, List.dropWhile_cons, if_pos (hspace b hb)]
        · rfl
  cases h : scan rest with
  | none =>
      rw [h] at hscan
      simp [versionInfoParse, readSegs, strtol, h, hscan]
  | some found =>
      obtain ⟨neg, digits, next⟩ := found
      rw [h] at hscan
      have hlt := length_scan_lt h
      have hlt' := length_scan_lt hscan
      have hne : next ≠ rest := fun heq => by rw [heq] at hlt; exact Nat.lt_irrefl _ hlt
      have hne' : next ≠ skipSpaces rest := fun heq => by
        rw [← heq] at hlt'
        exact Nat.lt_irrefl _ hlt'
      have hsegs : readSegs 3 (skipSpaces rest) = readSegs 3 rest := by
        simp only [readSegs, strtol_of_scan h, strtol_of_scan hscan, if_neg hne, if_neg hne']
      rw [versionInfoParse, versionInfoParse, hsegs]

/-- What is left of a piece behind the spaces. -/
theorem skipSpaces_piece (spaces : Nat) {op rest : List UInt8} {operand : Operand}
    (hop : (op, operand) ∈ operands) :
    ∃ rest', skipSpaces (List.replicate spaces 32 ++ (op ++ rest)) = op ++ rest' ∧
      rest' <:+ rest ∧ versionInfoParse rest' = versionInfoParse rest := by
  have hspaces : skipSpaces (List.replicate spaces 32 ++ (op ++ rest)) = skipSpaces (op ++ rest) :=
    List.dropWhile_append_of_pos fun b hb => by simp [List.eq_of_mem_replicate hb]
  rw [hspaces]
  cases op with
  | nil => exact ⟨skipSpaces rest, rfl, List.dropWhile_suffix _, versionInfoParse_skipSpaces rest⟩
  | cons b op =>
      have hb : (b == 32) = false := by
        simp only [operands, List.mem_cons, List.not_mem_nil, or_false, Prod.mk.injEq] at hop
        rcases hop with h | h | h | h | h | h | h <;> cases h.1 <;> rfl
      refine ⟨rest, ?_, List.suffix_refl rest, rfl⟩
      rw [skipSpaces, List.cons_append, List.dropWhile_cons, hb]
      rfl

theorem getLast_of_mem_operands {op : List UInt8} {operand : Operand}
    (hop : (op, operand) ∈ operands) : op.length ≤ 2 ∧ ∀ b ∈ op.getLast?, b ∈ operandChars := by
  simp only [operands, List.mem_cons, List.not_mem_nil, or_false, Prod.mk.injEq] at hop
  rcases hop with ⟨rfl, -⟩ | ⟨rfl, -⟩ | ⟨rfl, -⟩ | ⟨rfl, -⟩ | ⟨rfl, -⟩ | ⟨rfl, -⟩ | ⟨rfl, -⟩ <;>
    decide +kernel

/-- Where the parser cuts a piece of the language. -/
theorem ConstraintText.cut {piece : List UInt8} {constraint : VersionConstraint}
    (h : ConstraintText piece constraint) :
    (operandPart (skipSpaces piece), constraint.operand) ∈ operands ∧
      versionInfoParse (afterLast operandChars (skipSpaces piece)) = some constraint.version := by
  obtain ⟨spaces, hop, hfree, hversion⟩ := h
  obtain ⟨rest', hskip, hsuffix, hsame⟩ := skipSpaces_piece spaces hop
  obtain ⟨hpart, hcur⟩ := operandPart_of_append _ rest' (getLast_of_mem_operands hop).2
    fun b hb => hfree b (hsuffix.mem hb)
  rw [hskip, hpart, hcur, hsame]
  exact ⟨hop, hversion⟩

/-- A piece whose operand has a reasonable length is read as the language has it. -/
theorem versionConstraintParse_eq_some {piece : List UInt8} {constraint : VersionConstraint}
    (h : (operandPart (skipSpaces piece)).length < 2 ^ 31) :
    versionConstraintParse piece = some constraint ↔ ConstraintText piece constraint := by
  obtain ⟨version, operand⟩ := constraint
  have hparse : versionConstraintParse piece = some ⟨version, operand⟩ ↔
      (operandPart (skipSpaces piece), operand) ∈ operands ∧
        versionInfoParse (afterLast operandChars (skipSpaces piece)) = some version := by
    rw [← operandOf_eq_some h, versionConstraintParse]
    simp only [Option.bind_eq_bind, Option.bind_eq_some_iff, Option.some.injEq,
      VersionConstraint.mk.injEq]
    constructor
    · rintro ⟨_, hop, _, hversion, rfl, rfl⟩
      exact ⟨hop, hversion⟩
    · rintro ⟨hop, hversion⟩
      exact ⟨_, hop, _, hversion, rfl, rfl⟩
  rw [hparse]
  constructor
  · rintro ⟨hop, hversion⟩
    have hpiece : piece = List.replicate (piece.takeWhile (· == 32)).length 32 ++
        (operandPart (skipSpaces piece) ++ afterLast operandChars (skipSpaces piece)) := by
      have hspaces : piece.takeWhile (· == 32) =
          List.replicate (piece.takeWhile (· == 32)).length 32 :=
        List.eq_replicate_iff.2 ⟨rfl, fun b hb => by simpa using List.mem_takeWhile_imp hb⟩
      rw [operandPart_append, ← hspaces, skipSpaces, List.takeWhile_append_dropWhile]
    obtain ⟨-, -, hfree, -⟩ := afterLast_spec operandChars (skipSpaces piece)
    rw [hpiece]
    exact .mk _ hop hfree hversion
  · exact ConstraintText.cut

/-- A long operand is none. -/
theorem ConstraintText.length_lt {piece : List UInt8} {constraint : VersionConstraint}
    (h : ConstraintText piece constraint) : (operandPart (skipSpaces piece)).length < 2 ^ 31 := by
  have hle := (getLast_of_mem_operands h.cut.1).1
  omega

/-! ## The pieces -/

/-- The loop reads all pieces into the slots from `n_items` on, or stops at one
that is no constraint. -/
theorem parsePieces_cases {parse : List UInt8 → Option VersionConstraint}
    {pieces : List (List UInt8)} {elements : List VersionConstraint} {n_items : Nat}
    (hroom : n_items + pieces.length ≤ elements.length) :
    (∃ constraints elements',
      List.Forall₂ (fun piece c => parse piece = some c) pieces constraints ∧
      parsePieces parse pieces elements n_items =
        some (some (elements', n_items + constraints.length)) ∧
      elements'.length = elements.length ∧
      elements'.take (n_items + constraints.length) = elements.take n_items ++ constraints) ∨
    (∃ piece ∈ pieces, parse piece = none) ∧
      parsePieces parse pieces elements n_items = some none := by
  induction pieces generalizing elements n_items with
  | nil =>
      refine .inl ⟨[], elements, .nil, rfl, rfl, ?_⟩
      rw [List.append_nil]
      rfl
  | cons cur rest ih =>
      rw [List.length_cons] at hroom
      have hslot : n_items < elements.length := by omega
      rw [parsePieces, if_pos hslot]
      cases hcur : parse cur with
      | none => exact .inr ⟨⟨cur, List.mem_cons_self, hcur⟩, rfl⟩
      | some constraint =>
          have hroom' : n_items + 1 + rest.length ≤ (elements.set n_items constraint).length := by
            rw [List.length_set]
            omega
          rcases ih hroom' with
            ⟨constraints, elements', hall, hparse, hlen, hslots⟩ | ⟨⟨piece, hmem, hnone⟩, hparse⟩
          · have hcount : n_items + 1 + constraints.length =
                n_items + (constraint :: constraints).length := by
              rw [List.length_cons]
              omega
            rw [hcount] at hparse hslots
            rw [List.length_set] at hlen
            refine .inl ⟨constraint :: constraints, elements', .cons hcur hall, hparse, hlen, ?_⟩
            rw [hslots, List.take_succ_eq_append_getElem (by rw [List.length_set]; exact hslot),
              List.take_set_of_le (Nat.le_refl _), List.getElem_set_self, List.append_assoc]
            rfl
          · exact .inr ⟨⟨piece, List.mem_cons_of_mem _ hmem, hnone⟩, hparse⟩

/-! ## Lists -/

/-- The list is read, or the struct is empty again. -/
theorem versionConstraintsParse_cases (value : List UInt8) :
    (∃ cs elements,
      List.Forall₂ (fun piece c => versionConstraintParse piece = some c) (pieces [44] value) cs ∧
      versionConstraintsParse .clear value = some (0, ⟨cs.length, some elements⟩) ∧
      elements.length = value.count 44 + 1 ∧ elements.take cs.length = cs) ∨
    (∃ piece ∈ pieces [44] value, versionConstraintParse piece = none) ∧
      versionConstraintsParse .clear value = some (-1, .clear) := by
  have hroom : 0 + (pieces [44] value).length ≤
      (List.replicate (value.count 44 + 1) VersionConstraint.zero).length := by
    rw [List.length_replicate, Nat.zero_add]
    exact length_pieces_singleton_le 44 value
  rw [versionConstraintsParse, if_pos ⟨rfl, rfl⟩, tokens_eq]
  simp only
  rcases parsePieces_cases hroom with ⟨cs, elements, hall, hloop, hlen, hslots⟩ | ⟨hnone, hloop⟩
  · rw [hloop]
    rw [Nat.zero_add] at hslots
    rw [List.length_replicate] at hlen
    exact .inl ⟨cs, elements, hall, by rw [Nat.zero_add]; rfl, hlen, hslots⟩
  · rw [hloop]
    exact .inr ⟨hnone, rfl⟩

/-- `version_constraints_check` looks at the constraints that were read. -/
theorem versionConstraintsCheck_iff {cs elements : List VersionConstraint}
    (hslots : elements.take cs.length = cs) (version : VersionInfo) :
    versionConstraintsCheck ⟨cs.length, some elements⟩ version = true ↔
      ∀ c ∈ cs, c.Satisfied version := by
  rw [versionConstraintsCheck, Option.getD_some, hslots, List.all_eq_true]
  simp only [versionConstraintCheck_iff]

/-- How many pieces are read, one after another. -/
def itemsRead (value : List UInt8) : Nat :=
  ((pieces [44] value).takeWhile fun piece => (versionConstraintParse piece).isSome).length

/-- `version_constraints_parse` and `version_constraints_check` are right about
a string. -/
structure ParsesConstraints (value : List UInt8) : Prop where
  /-- There is a slot for every piece. -/
  slots : (pieces [44] value).length ≤ value.count 44 + 1
  /-- `n_items` is an `int`. -/
  no_overflow : itemsRead value < 2 ^ 31
  result : ∃ ret constraints,
    versionConstraintsParse VersionConstraints.clear value = some (ret, constraints) ∧
    (ret = 0 ↔ ∀ piece ∈ pieces [44] value, IsConstraint piece) ∧
    (ret = 0 → ∃ elements cs, constraints = ⟨cs.length, some elements⟩ ∧
      elements.length = value.count 44 + 1 ∧ elements.take cs.length = cs ∧
      List.Forall₂ ConstraintText (pieces [44] value) cs ∧
      ∀ version, versionConstraintsCheck constraints version = true ↔
        ∀ c ∈ cs, c.Satisfied version) ∧
    (ret ≠ 0 → ret = -1 ∧ constraints = VersionConstraints.clear)

/-- The pieces can be counted, and if all are read, their operands have a length
that is not narrowed. -/
def Fits (value : List UInt8) : Prop :=
  itemsRead value < 2 ^ 31 ∧
    ((∀ piece ∈ pieces [44] value, (versionConstraintParse piece).isSome = true) →
      ∀ piece ∈ pieces [44] value, (operandPart (skipSpaces piece)).length < 2 ^ 31)

/-- `version_constraints_parse` is right about exactly the strings that fit. -/
theorem versionConstraintsParse_fits (value : List UInt8) :
    ParsesConstraints value ↔ Fits value := by
  constructor
  · intro h
    refine ⟨h.no_overflow, fun hall piece hmem => ?_⟩
    obtain ⟨ret, constraints, hparse, haccept, -⟩ := h.result
    have hret : ret = 0 := by
      rcases versionConstraintsParse_cases value with ⟨cs, elements, -, hread, -⟩ |
        ⟨⟨piece, hmem, hnone⟩, -⟩
      · rw [hread] at hparse
        cases hparse
        rfl
      · have hsome := hall piece hmem
        rw [hnone] at hsome
        cases hsome
    obtain ⟨constraint, htext⟩ := isConstraint_iff.1 (haccept.1 hret piece hmem)
    exact htext.length_lt
  · rintro ⟨hcount, hlength⟩
    refine ⟨length_pieces_singleton_le 44 value, hcount, ?_⟩
    rcases versionConstraintsParse_cases value with ⟨cs, elements, hall, hread, hlen, hslots⟩ |
      ⟨⟨piece, hmem, hnone⟩, hread⟩
    · have hsome : ∀ piece ∈ pieces [44] value, (versionConstraintParse piece).isSome = true :=
        (List.forall₂_and_left _ _).1 (hall.imp fun piece c h => ⟨by rw [h]; rfl, h⟩) |>.1
      have htexts : List.Forall₂ ConstraintText (pieces [44] value) cs :=
        ((List.forall₂_and_left _ _).2 ⟨hlength hsome, hall⟩).imp fun piece c h =>
          (versionConstraintParse_eq_some h.1).1 h.2
      refine ⟨0, _, hread, iff_of_true rfl fun piece hmem => ?_, fun _ => ?_,
        fun h => absurd rfl h⟩
      · obtain ⟨c, hc⟩ := Option.isSome_iff_exists.1 (hsome piece hmem)
        exact isConstraint_iff.2
          ⟨c, (versionConstraintParse_eq_some (hlength hsome piece hmem)).1 hc⟩
      · exact ⟨elements, cs, rfl, hlen, hslots, htexts, versionConstraintsCheck_iff hslots⟩
    · refine ⟨-1, _, hread, iff_of_false (by decide) fun hall => ?_, fun h => absurd h (by decide),
        fun _ => ⟨rfl, rfl⟩⟩
      obtain ⟨constraint, htext⟩ := isConstraint_iff.1 (hall piece hmem)
      rw [(versionConstraintParse_eq_some htext.length_lt).2 htext] at hnone
      cases hnone

/-- An operand that is too long by far is read like none. -/
theorem versionConstraintParse_long {n : Nat} (hn : n + 1 = 2 ^ 31) :
    versionConstraintParse (List.replicate n 120 ++ ascii "<5") =
      some ⟨⟨5, -1, -1⟩, .equals⟩ ∧
    (operandPart (skipSpaces (List.replicate n 120 ++ ascii "<5"))).length = 2 ^ 31 := by
  have hsplit : List.replicate n 120 ++ ascii "<5" = (List.replicate n 120 ++ [60]) ++ [53] := by
    rw [List.append_assoc]
    rfl
  have hskip : skipSpaces (List.replicate n 120 ++ ascii "<5") =
      List.replicate n 120 ++ ascii "<5" := by
    cases n with
    | zero => rfl
    | succ n => rfl
  obtain ⟨hpart, hcur⟩ := operandPart_of_append (List.replicate n 120 ++ [60]) [53]
    (by simp [operandChars, ascii]) (by decide +kernel)
  have hlen : (List.replicate n (120 : UInt8) ++ [60]).length = 2 ^ 31 := by
    rw [List.length_append, List.length_replicate, List.length_singleton, hn]
  have hnarrow : toInt (2 ^ 31 : Nat) = -2 ^ 31 := by
    rw [toInt]
    decide
  have hversion : versionInfoParse [53] = some ⟨5, -1, -1⟩ := by decide +kernel
  rw [versionConstraintParse, hskip, hsplit, hpart, hcur, hlen, hnarrow, hversion]
  exact ⟨rfl, rfl⟩

/-- `x` 2^31 - 1 times and `<5` is accepted. -/
theorem versionConstraintsParse_narrows :
    ∃ value, (∃ constraints, versionConstraintsParse .clear value = some (0, constraints)) ∧
      ¬ParsesConstraints value := by
  obtain ⟨n, hn⟩ : ∃ n, n + 1 = 2 ^ 31 := ⟨2 ^ 31 - 1, by omega⟩
  obtain ⟨hparse, hlen⟩ := versionConstraintParse_long hn
  have hpieces : pieces [44] (List.replicate n 120 ++ ascii "<5") =
      [List.replicate n 120 ++ ascii "<5"] := by
    refine pieces_of_not_mem (by simp [ascii]) fun b hb => ?_
    rcases List.mem_append.1 hb with hb | hb
    · rw [List.eq_of_mem_replicate hb]
      decide
    · exact (by decide +kernel : ∀ b ∈ ascii "<5", b ∉ [44]) b hb
  rcases versionConstraintsParse_cases (List.replicate n 120 ++ ascii "<5") with
    ⟨cs, elements, -, hread, -⟩ | ⟨⟨piece, hmem, hnone⟩, -⟩
  · refine ⟨_, ⟨_, hread⟩, fun h => ?_⟩
    obtain ⟨ret, constraints, hread', haccept, -⟩ := h.result
    rw [hread] at hread'
    cases hread'
    rw [hpieces] at haccept
    obtain ⟨constraint, htext⟩ := isConstraint_iff.1 (haccept.1 rfl _ List.mem_cons_self)
    exact absurd htext.length_lt (by rw [hlen]; exact Nat.lt_irrefl _)
  · rw [hpieces, List.mem_singleton] at hmem
    rw [hmem, hparse] at hnone
    cases hnone

end CommonsC.Version
