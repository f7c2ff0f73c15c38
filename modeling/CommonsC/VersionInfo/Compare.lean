import CommonsC.VersionInfo.Text
import Mathlib.Data.List.Lex

/-!
# CommonsC.VersionInfo.Compare

What `version_info_compare` and `version_constraint_check` mean.

A version is the list of its numbers up to the first one that is not specified.
Two versions are compared by the numbers that both of them specify
(`comparePrefix_take`).  Of versions that specify all their numbers this is the
lexicographic order; with others in between it is not even transitive.
-/

namespace CommonsC.Version

/-- The numbers of a version that are specified. -/
def VersionInfo.specified (version : VersionInfo) : List Int :=
  [version.major, version.minor, version.patch].takeWhile (0 ≤ ·)

/-- The lexicographic order of two lists, as far as both go. -/
def comparePrefix {α : Type} [Ord α] : List α → List α → Ordering
  | a :: as, b :: bs => (compare a b).then (comparePrefix as bs)
  | _, _ => .eq

/-- What a constraint asks of a version. -/
def VersionConstraint.Satisfied (constraint : VersionConstraint) (version : VersionInfo) : Prop :=
  let order := comparePrefix version.specified constraint.version.specified
  match constraint.operand with
  | .ignore => True
  | .equals => order = .eq
  | .notEquals => order ≠ .eq
  | .greaterThan => order = .gt
  | .greaterEquals => order ≠ .lt
  | .lesserThan => order = .lt
  | .lesserEquals => order ≠ .gt

/-- One number after another. -/
theorem compare_step {a b rest : Int} {as bs : List Int}
    (h : compare rest 0 = comparePrefix (as.takeWhile (0 ≤ ·)) (bs.takeWhile (0 ≤ ·))) :
    compare (if a < 0 ∨ b < 0 then 0 else if a - b ≠ 0 then a - b else rest) 0 =
      comparePrefix ((a :: as).takeWhile (0 ≤ ·)) ((b :: bs).takeWhile (0 ≤ ·)) := by
  rw [List.takeWhile_cons, List.takeWhile_cons]
  split
  · next hneg =>
      rcases hneg with hneg | hneg
      · rw [if_neg (by simpa using hneg)]
        rfl
      · rw [if_neg (c := decide (0 ≤ b) = true) (by simpa using hneg)]
        split <;> rfl
  · next hspec =>
      rw [not_or, Int.not_lt, Int.not_lt] at hspec
      rw [if_pos (c := decide (0 ≤ a) = true) (by simpa using hspec.1),
        if_pos (c := decide (0 ≤ b) = true) (by simpa using hspec.2), comparePrefix, ← h]
      split
      · next hdiff =>
          rcases Int.lt_or_gt_of_ne fun heq : a = b => hdiff (by rw [heq, Int.sub_self]) with
            hlt | hlt
          · rw [Int.compare_eq_lt.2 hlt, Int.compare_eq_lt.2 (by omega)]
            rfl
          · rw [Int.compare_eq_gt.2 hlt, Int.compare_eq_gt.2 (by omega)]
            rfl
      · next hsame =>
          rw [Int.compare_eq_eq.2 (by omega : a = b)]
          rfl

/-- The sign of `version_info_compare`. -/
theorem versionInfoCompare_sign (a b : VersionInfo) :
    compare (versionInfoCompare a b) 0 = comparePrefix a.specified b.specified :=
  compare_step (compare_step (compare_step rfl))

/-- `version_constraint_check` decides what the constraint asks. -/
theorem versionConstraintCheck_iff (constraint : VersionConstraint) (version : VersionInfo) :
    versionConstraintCheck constraint version = true ↔ constraint.Satisfied version := by
  rw [versionConstraintCheck, VersionConstraint.Satisfied, ← versionInfoCompare_sign]
  cases constraint.operand with
  | notEquals => rw [bne_iff_ne, ne_eq, ne_eq, Int.compare_eq_eq]
  | _ =>
      simp only [beq_iff_eq, decide_eq_true_eq, Int.compare_eq_eq, Int.compare_eq_lt,
        Int.compare_eq_gt, Int.compare_ne_gt, Int.compare_ne_lt, gt_iff_lt, ge_iff_le]

/-! ## Without overflow -/

/-- A subtraction of two `int`s: `none` is an overflow. -/
def subInt (a b : Int) : Option Int :=
  if -2 ^ 31 ≤ a - b ∧ a - b < 2 ^ 31 then some (a - b) else none

/-- `version_info_compare` in the arithmetic of `int`. -/
def versionInfoCompareInt (a b : VersionInfo) : Option Int :=
  if a.major < 0 ∨ b.major < 0 then some 0
  else do
    let diff ← subInt a.major b.major
    if diff ≠ 0 then some diff
    else if a.minor < 0 ∨ b.minor < 0 then some 0
    else do
      let diff ← subInt a.minor b.minor
      if diff ≠ 0 then some diff
      else if a.patch < 0 ∨ b.patch < 0 then some 0
      else do
        let diff ← subInt a.patch b.patch
        if diff ≠ 0 then some diff else some 0

theorem subInt_step {a b rest : Int} {rest' : Option Int} (ha : a < 2 ^ 31) (hb : b < 2 ^ 31)
    (h : rest' = some rest) :
    (if a < 0 ∨ b < 0 then some 0
      else (subInt a b).bind fun diff => if diff ≠ 0 then some diff else rest') =
      some (if a < 0 ∨ b < 0 then 0 else if a - b ≠ 0 then a - b else rest) := by
  split
  · rfl
  · next hspec =>
      rw [subInt, if_pos ⟨by omega, by omega⟩, Option.bind_some, h]
      split <;> rfl

/-- Numbers that are not negative have a difference that is an `int`. -/
theorem versionInfoCompareInt_eq {a b : VersionInfo} (ha : a.WellFormed) (hb : b.WellFormed) :
    versionInfoCompareInt a b = some (versionInfoCompare a b) :=
  subInt_step ha.major.2 hb.major.2
    (subInt_step ha.minor.2 hb.minor.2 (subInt_step ha.patch.2 hb.patch.2 rfl))

/-! ## Prefixes -/

/-- The numbers of `version` that have a counterpart in `other`. -/
def VersionInfo.cut (version other : VersionInfo) : List Int :=
  version.specified.take (min version.specified.length other.specified.length)

theorem comparePrefix_take (as bs : List Int) :
    let k := min as.length bs.length
    (comparePrefix as bs = .lt ↔ as.take k < bs.take k) ∧
      (comparePrefix as bs = .eq ↔ as.take k = bs.take k) ∧
      (comparePrefix as bs = .gt ↔ bs.take k < as.take k) := by
  induction as generalizing bs with
  | nil => simp [comparePrefix]
  | cons a as ih =>
      cases bs with
      | nil => simp [comparePrefix]
      | cons b bs =>
          obtain ⟨hlt, heq, hgt⟩ := ih bs
          rw [comparePrefix, List.length_cons, List.length_cons, Nat.succ_min_succ]
          dsimp only
          rw [List.take_succ_cons, List.take_succ_cons, List.cons_lt_cons_iff,
            List.cons_lt_cons_iff, List.cons.injEq, ← hlt, ← heq, ← hgt]
          rcases Int.lt_trichotomy a b with h | rfl | h
          · rw [Int.compare_eq_lt.2 h]
            simp [Ordering.then, h, h.ne, h.ne', h.le]
          · rw [Int.compare_eq_eq.2 rfl]
            simp
          · rw [Int.compare_eq_gt.2 h]
            simp [Ordering.then, h, h.ne, h.ne', h.le]

/-- What the sign of `version_info_compare` says. -/
theorem versionInfoCompare_cut (a b : VersionInfo) :
    (versionInfoCompare a b < 0 ↔ a.cut b < b.cut a) ∧
      (versionInfoCompare a b = 0 ↔ a.cut b = b.cut a) ∧
      (0 < versionInfoCompare a b ↔ b.cut a < a.cut b) := by
  obtain ⟨hlt, heq, hgt⟩ := comparePrefix_take a.specified b.specified
  have hcut : b.cut a =
      b.specified.take (min a.specified.length b.specified.length) := by
    rw [VersionInfo.cut, Nat.min_comm]
  rw [hcut, VersionInfo.cut, ← hlt, ← heq, ← hgt, ← versionInfoCompare_sign]
  exact ⟨Int.compare_eq_lt.symm, Int.compare_eq_eq.symm, Int.compare_eq_gt.symm⟩

theorem length_specified_le (version : VersionInfo) : version.specified.length ≤ 3 :=
  (List.takeWhile_prefix _).length_le

/-! ## Versions that are specified in full -/

/-- All three numbers are specified. -/
def VersionInfo.Full (version : VersionInfo) : Prop := version.specified.length = 3

theorem VersionInfo.Full.specified_eq {version : VersionInfo} (h : version.Full) :
    version.specified = [version.major, version.minor, version.patch] :=
  (List.takeWhile_prefix _).eq_of_length h

theorem VersionInfo.Full.cut {version : VersionInfo} (h : version.Full) (other : VersionInfo) :
    version.cut other = version.specified.take other.specified.length := by
  rw [VersionInfo.cut, h, Nat.min_eq_right (length_specified_le other)]

theorem VersionInfo.Full.cut_other {version : VersionInfo} (h : version.Full)
    (other : VersionInfo) : other.cut version = other.specified := by
  rw [VersionInfo.cut, h, Nat.min_eq_left (length_specified_le other), List.take_length]

theorem VersionInfo.Full.compare_le {a b : VersionInfo} (ha : a.Full) (hb : b.Full) :
    versionInfoCompare a b ≤ 0 ↔ a.specified ≤ b.specified := by
  rw [← Int.not_lt, (versionInfoCompare_cut a b).2.2, ha.cut_other, hb.cut_other, not_lt]

theorem VersionInfo.Full.specified_inj {a b : VersionInfo} (ha : a.Full) (hb : b.Full) :
    a.specified = b.specified ↔ a = b := by
  refine ⟨fun h => ?_, fun h => h ▸ rfl⟩
  rw [ha.specified_eq, hb.specified_eq] at h
  obtain ⟨hmajor, hminor, hpatch⟩ : a.major = b.major ∧ a.minor = b.minor ∧ a.patch = b.patch := by
    simpa using h
  cases a
  cases b
  congr

/-- What is compared with `relation` to what a constraint has. -/
def Operand.Relation : Operand → (version constraint : List Int) → Prop
  | .ignore, _, _ => True
  | .equals, version, constraint => version = constraint
  | .notEquals, version, constraint => version ≠ constraint
  | .greaterThan, version, constraint => version > constraint
  | .greaterEquals, version, constraint => version ≥ constraint
  | .lesserThan, version, constraint => version < constraint
  | .lesserEquals, version, constraint => version ≤ constraint

theorem versionConstraintCheck_full {version : VersionInfo} (h : version.Full)
    (constraint : VersionConstraint) :
    versionConstraintCheck constraint version = true ↔
      constraint.operand.Relation
        (version.specified.take constraint.version.specified.length)
        constraint.version.specified := by
  obtain ⟨hlt, heq, hgt⟩ := versionInfoCompare_cut version constraint.version
  rw [h.cut, h.cut_other] at hlt heq hgt
  rw [versionConstraintCheck]
  cases constraint.operand with
  | ignore => exact iff_of_true rfl trivial
  | equals => rw [beq_iff_eq, heq]; rfl
  | notEquals => rw [bne_iff_ne, ne_eq, heq]; rfl
  | greaterThan => rw [decide_eq_true_eq, gt_iff_lt, hgt]; rfl
  | greaterEquals => rw [decide_eq_true_eq, ge_iff_le, ← Int.not_lt, hlt, not_lt]; rfl
  | lesserThan => rw [decide_eq_true_eq, hlt]; rfl
  | lesserEquals => rw [decide_eq_true_eq, ← Int.not_lt, hgt, not_lt]; rfl

/-- Lists that are cut to one length stay in order. -/
theorem take_le_take {as bs : List Int} (h : as ≤ bs) (k : Nat) : as.take k ≤ bs.take k := by
  induction k generalizing as bs with
  | zero => exact le_refl _
  | succ k ih =>
      rcases h.lt_or_eq with hlt | rfl
      · match as, bs, hlt with
        | [], b :: bs, _ => exact (List.nil_lt_cons b _).le
        | a :: as, b :: bs, hlt =>
            rw [List.take_succ_cons, List.take_succ_cons, le_iff_lt_or_eq, List.cons_lt_cons_iff]
            rcases List.cons_lt_cons_iff.1 hlt with hab | ⟨rfl, hrest⟩
            · exact .inl (.inl hab)
            · rcases (ih hrest.le).lt_or_eq with hlt' | heq
              · exact .inl (.inr ⟨rfl, hlt'⟩)
              · exact .inr (by rw [heq])
      · exact le_refl _

/-- Versions that are well formed and specified in full. -/
def FullVersion : Type := { version : VersionInfo // version.WellFormed ∧ version.Full }

theorem isLinearOrder_full :
    IsLinearOrder FullVersion fun a b => versionInfoCompare a.1 b.1 ≤ 0 where
  refl a := (a.2.2.compare_le a.2.2).2 (le_refl _)
  trans a b c hab hbc :=
    (a.2.2.compare_le c.2.2).2
      (((a.2.2.compare_le b.2.2).1 hab).trans ((b.2.2.compare_le c.2.2).1 hbc))
  antisymm a b hab hba :=
    Subtype.ext ((a.2.2.specified_inj b.2.2).1
      (((a.2.2.compare_le b.2.2).1 hab).antisymm ((b.2.2.compare_le a.2.2).1 hba)))
  total a b := by
    rw [a.2.2.compare_le b.2.2, b.2.2.compare_le a.2.2]
    exact le_total _ _

/-- A later version satisfies what an earlier one does, if this asks for a late
version. -/
theorem versionConstraintCheck_mono {constraint : VersionConstraint} {version later : VersionInfo}
    (hoperand : constraint.operand = .greaterThan ∨ constraint.operand = .greaterEquals)
    (hversion : version.Full) (hlater : later.Full) (hle : 0 ≤ versionInfoCompare later version)
    (h : versionConstraintCheck constraint version = true) :
    versionConstraintCheck constraint later = true := by
  have horder : version.specified ≤ later.specified := by
    rwa [← Int.not_lt, (versionInfoCompare_cut later version).1, hlater.cut_other,
      hversion.cut_other, not_lt] at hle
  have hcut := take_le_take horder constraint.version.specified.length
  rw [versionConstraintCheck_full hlater]
  rw [versionConstraintCheck_full hversion] at h
  rcases hoperand with hop | hop <;> rw [hop] at h ⊢
  · exact lt_of_lt_of_le h hcut
  · exact le_trans h hcut

/-- **Version constraints mean prefix comparison.** -/
theorem versionInfoCompare_prefix :
    (∀ v c : VersionInfo, v.WellFormed → c.WellFormed →
      versionInfoCompareInt v c = some (versionInfoCompare v c) ∧
        (versionInfoCompare v c < 0 ↔ v.cut c < c.cut v) ∧
        (versionInfoCompare v c = 0 ↔ v.cut c = c.cut v) ∧
        (0 < versionInfoCompare v c ↔ c.cut v < v.cut c)) ∧
    (IsLinearOrder FullVersion fun a b => versionInfoCompare a.1 b.1 ≤ 0) ∧
    (∀ (v : FullVersion) (constraint : VersionConstraint), constraint.version.WellFormed →
      (versionConstraintCheck constraint v.1 = true ↔
        constraint.operand.Relation
          (v.1.specified.take constraint.version.specified.length)
          constraint.version.specified)) ∧
    ∀ (v w : FullVersion) (constraint : VersionConstraint), constraint.version.WellFormed →
      constraint.operand = .greaterThan ∨ constraint.operand = .greaterEquals →
      0 ≤ versionInfoCompare w.1 v.1 → versionConstraintCheck constraint v.1 = true →
      versionConstraintCheck constraint w.1 = true :=
  ⟨fun v c hv hc => ⟨versionInfoCompareInt_eq hv hc, versionInfoCompare_cut v c⟩,
    isLinearOrder_full, fun v constraint _ => versionConstraintCheck_full v.2.2 constraint,
    fun v w _ _ hop hle h => versionConstraintCheck_mono hop v.2.2 w.2.2 hle h⟩

/-- Version 7.2.0 is at least 7.1, and so is 8.0.0; 7.2 and 7.2.9 compare equal. -/
theorem versionInfoCompare_prefix_seven :
    versionInfoCompareInt ⟨7, 2, 9⟩ ⟨7, 2, -1⟩ = some (versionInfoCompare ⟨7, 2, 9⟩ ⟨7, 2, -1⟩) ∧
      versionInfoCompare ⟨7, 2, 9⟩ ⟨7, 2, -1⟩ = 0 ∧
      versionConstraintCheck ⟨⟨7, 1, -1⟩, .greaterEquals⟩ ⟨7, 2, 0⟩ = true ∧
      versionConstraintCheck ⟨⟨7, 1, -1⟩, .greaterEquals⟩ ⟨8, 0, 0⟩ = true := by
  obtain ⟨hcompare, -, hcheck, hmono⟩ := versionInfoCompare_prefix
  obtain ⟨hint, -, hequal, -⟩ := hcompare ⟨7, 2, 9⟩ ⟨7, 2, -1⟩
    ⟨by decide, by decide, by decide, nofun⟩ ⟨by decide, by decide, by decide, nofun⟩
  have hbound : (⟨7, 1, -1⟩ : VersionInfo).WellFormed :=
    ⟨by decide, by decide, by decide, nofun⟩
  let seven : FullVersion := ⟨⟨7, 2, 0⟩, ⟨by decide, by decide, by decide, nofun⟩, rfl⟩
  let eight : FullVersion := ⟨⟨8, 0, 0⟩, ⟨by decide, by decide, by decide, nofun⟩, rfl⟩
  have hle : ([7, 1] : List Int) ≤ [7, 2] := by decide
  have hseven := (hcheck seven ⟨⟨7, 1, -1⟩, .greaterEquals⟩ hbound).2 hle
  exact ⟨hint, hequal.2 (by decide), hseven,
    hmono seven eight ⟨⟨7, 1, -1⟩, .greaterEquals⟩ hbound (.inr rfl) (by decide) hseven⟩

end CommonsC.Version
