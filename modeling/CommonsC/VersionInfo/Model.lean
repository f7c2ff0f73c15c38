import CommonsC.Base.CString
import CommonsC.Base.Numeral
import CommonsC.Base.Strings

/-!
# CommonsC.VersionInfo.Model

Versions and version constraints (`util/version-info/version_info.c`).

A version has up to three numbers, and those that are not specified are
negative.  Longs and pointer differences are narrowed to 32 bits where the
source stores them in an `int`.
-/

namespace CommonsC.Version

open CString Numeral

/-! ## Versions -/

/-- `version_info_t`. -/
structure VersionInfo where
  major : Int
  minor : Int
  patch : Int
deriving DecidableEq, Repr

/-- The loop of `version_info_parse`, with `n` segments still free. -/
def readSegs : (n : Nat) → (rest : List UInt8) → List Int
  | 0, _ => []
  | n + 1, rest =>
      let (num, next) := strtol rest
      if next = rest then []
      else toInt num :: readSegs n (if next.head? = some 46 then next.tail else next)

/-- `version_info_parse`: `none` is `-1`. -/
def versionInfoParse (value : List UInt8) : Option VersionInfo :=
  let segs := readSegs 3 value
  if segs = [] then none else some ⟨segs.getD 0 (-1), segs.getD 1 (-1), segs.getD 2 (-1)⟩

/-- There is a version if there is a number. -/
theorem versionInfoParse_isSome {value : List UInt8} :
    (versionInfoParse value).isSome = true ↔ (strtol value).2 ≠ value := by
  by_cases h : (strtol value).2 = value <;> simp [versionInfoParse, readSegs, h]

/-- `version_info_valid`. -/
def versionInfoValid (version : VersionInfo) : Bool := 0 ≤ version.major

/-- The text of `version_info_str`, in front of the limit of its buffer. -/
def VersionInfo.text (version : VersionInfo) : CString :=
  if version.minor < 0 then .decimal version.major.toNat
  else if version.patch < 0 then
    ((CString.decimal version.major.toNat).append (.lit ".")).append
      (.decimal version.minor.toNat)
  else
    ((((CString.decimal version.major.toNat).append (.lit ".")).append
      (.decimal version.minor.toNat)).append (.lit ".")).append (.decimal version.patch.toNat)

/-- `version_info_str`, where `malloc` says whether there is memory for the
result: `none` is `NULL`. -/
def versionInfoStr (malloc : Bool) (version : VersionInfo) : Option CString :=
  if version.major < 0 then none
  else
    let tmp := snprintf 64 version.text
    if malloc then some tmp else none

/-- `version_info_compare`. -/
def versionInfoCompare (a b : VersionInfo) : Int :=
  if a.major < 0 ∨ b.major < 0 then 0
  else if a.major - b.major ≠ 0 then a.major - b.major
  else if a.minor < 0 ∨ b.minor < 0 then 0
  else if a.minor - b.minor ≠ 0 then a.minor - b.minor
  else if a.patch < 0 ∨ b.patch < 0 then 0
  else if a.patch - b.patch ≠ 0 then a.patch - b.patch
  else 0

/-! ## Constraints -/

/-- The operands of a constraint. -/
inductive Operand
  | ignore | equals | notEquals | greaterThan | greaterEquals | lesserThan | lesserEquals
deriving DecidableEq, Repr

/-- `version_constraint_t`. -/
structure VersionConstraint where
  version : VersionInfo
  operand : Operand
deriving DecidableEq, Repr

/-- `ALLOWED_OPERAND_CHARS`. -/
def operandChars : List UInt8 := ascii "<>="

/-- What `value` points to after the spaces. -/
def skipSpaces (value : List UInt8) : List UInt8 := value.dropWhile (· == 32)

/-- What is between `value` and `cur` after the loop of
`version_constraint_parse`. -/
def operandPart (value : List UInt8) : List UInt8 :=
  value.take (value.length - (afterLast operandChars value).length)

/-- The operand that ends at `cur`, by `op_len`: `none` is `-1`. -/
def operandOf (op_len : Int) (part : List UInt8) : Option Operand :=
  if op_len > 2 then none
  else if op_len = 2 then
    let op := part.drop (part.length - 2)
    if op = ascii ">=" then some .greaterEquals
    else if op = ascii "<=" then some .lesserEquals
    else if op = ascii "<>" then some .notEquals
    else none
  else if op_len = 1 then
    let op := part.getLast?
    if op = some 61 then some .equals
    else if op = some 60 then some .lesserThan
    else if op = some 62 then some .greaterThan
    else none
  else some .equals

/-- `version_constraint_parse`: `none` is `-1`. -/
@[irreducible] def versionConstraintParse (value : List UInt8) : Option VersionConstraint := do
  let value := skipSpaces value
  let cur := afterLast operandChars value
  let op_len := toInt (operandPart value).length
  let operand ← operandOf op_len (operandPart value)
  let version ← versionInfoParse cur
  some { version, operand }

/-- `version_constraint_check`. -/
def versionConstraintCheck (constraint : VersionConstraint) (version : VersionInfo) : Bool :=
  match constraint.operand with
  | .ignore => true
  | .equals => versionInfoCompare version constraint.version == 0
  | .notEquals => versionInfoCompare version constraint.version != 0
  | .greaterThan => versionInfoCompare version constraint.version > 0
  | .greaterEquals => versionInfoCompare version constraint.version ≥ 0
  | .lesserThan => versionInfoCompare version constraint.version < 0
  | .lesserEquals => versionInfoCompare version constraint.version ≤ 0

/-! ## Lists of constraints -/

/-- `version_constraints_t`: `elements` are the slots that were allocated. -/
structure VersionConstraints where
  count : Nat
  elements : Option (List VersionConstraint)
deriving DecidableEq, Repr

/-- `version_constraints_clear`, and a struct that is zero. -/
def VersionConstraints.clear : VersionConstraints := ⟨0, none⟩

/-- A slot of `calloc`. -/
def VersionConstraint.zero : VersionConstraint := ⟨⟨0, 0, 0⟩, .ignore⟩

/-- The loop of `version_constraints_parse` over the pieces, `parse` being
`version_constraint_parse`: `none` is a slot that is not there, and `some none`
is a piece that is no constraint. -/
def parsePieces (parse : List UInt8 → Option VersionConstraint) :
    List (List UInt8) → (elements : List VersionConstraint) → (n_items : Nat) →
    Option (Option (List VersionConstraint × Nat))
  | [], elements, n_items => some (some (elements, n_items))
  | cur :: rest, elements, n_items =>
      if n_items < elements.length then
        match parse cur with
        | some constraint => parsePieces parse rest (elements.set n_items constraint) (n_items + 1)
        | none => some none
      else none

/-- `version_constraints_parse`: `none` is a failed assertion or a slot that
is not there. -/
def versionConstraintsParse (constraints : VersionConstraints) (value : List UInt8) :
    Option (Int × VersionConstraints) :=
  if constraints.count = 0 ∧ constraints.elements = none then
    let max_constraints := value.count 44 + 1
    let elements := List.replicate max_constraints VersionConstraint.zero
    (parsePieces versionConstraintParse (tokens [44] value) elements 0).map fun
      | some (elements, n_items) => (0, { count := n_items, elements := some elements })
      | none => (-1, VersionConstraints.clear)
  else none

/-- `version_constraints_check`. -/
def versionConstraintsCheck (constraints : VersionConstraints) (version : VersionInfo) : Bool :=
  ((constraints.elements.getD []).take constraints.count).all (versionConstraintCheck · version)

end CommonsC.Version
