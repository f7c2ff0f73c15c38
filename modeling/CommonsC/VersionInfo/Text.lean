import CommonsC.VersionInfo.Model

/-!
# CommonsC.VersionInfo.Text

Versions and their texts.

A version that is well formed is printed by `version_info_str` as its numbers
with dots between them, and `version_info_parse` reads such a text back, number
by number (`readSegs_intercalate`).  The parser takes other texts as well: a
number may have blanks and a sign in front, and what does not fit an `int` is
cut to 32 bits.  `Storable` says of which texts the versions are well formed.
-/

namespace CommonsC.Version

open CString (afterLast)
open Numeral

/-- One to three numbers, the others being `-1`. -/
@[mk_iff] structure VersionInfo.WellFormed (version : VersionInfo) : Prop where
  major : 0 ≤ version.major ∧ version.major < 2 ^ 31
  minor : -1 ≤ version.minor ∧ version.minor < 2 ^ 31
  patch : -1 ≤ version.patch ∧ version.patch < 2 ^ 31
  order : version.minor = -1 → version.patch = -1

/-! ## Dotted numbers -/

/-- A number that is read as it is written. -/
structure IsNumber (digits : List UInt8) : Prop where
  ne_nil : digits ≠ []
  isDigit : ∀ d ∈ digits, isDigit d = true
  value_lt : value digits < 2 ^ 31

theorem isNumber_decimal {n : Nat} (h : n < 2 ^ 31) : IsNumber (decimal n) where
  ne_nil := decimal_ne_nil n
  isDigit _ := isDigit_of_mem_decimal
  value_lt := by rwa [value_decimal]

theorem strtol_number {digits rest : List UInt8} (h : IsNumber digits)
    (hrest : ∀ b ∈ rest.head?, isDigit b = false) :
    strtol (digits ++ rest) = ((value digits : Int), rest) := by
  have hlt := h.value_lt
  rw [strtol_of_scan (scan_digits h.ne_nil h.isDigit hrest), if_neg (by decide), clampLong]
  congr 1
  omega

/-- The numbers between the dots are read. -/
theorem readSegs_intercalate {parts : List (List UInt8)} {n : Nat} (hlen : parts.length ≤ n)
    (h : ∀ p ∈ parts, IsNumber p) :
    readSegs n ([46].intercalate parts) = parts.map fun p => (value p : Int) := by
  induction parts generalizing n with
  | nil =>
      cases n with
      | zero => rfl
      | succ n => rfl
  | cons p parts ih =>
      obtain ⟨n, rfl⟩ : ∃ k, n = k + 1 := Nat.exists_eq_succ_of_ne_zero (by rintro rfl; cases hlen)
      have hp := h p List.mem_cons_self
      have hparts := ih (Nat.le_of_succ_le_succ hlen) fun q hq => h q (List.mem_cons_of_mem _ hq)
      -- What is behind the first number, and what is behind its dot.
      obtain ⟨rest, htext, hhead, hnext⟩ : ∃ rest, [46].intercalate (p :: parts) = p ++ rest ∧
          (∀ b ∈ rest.head?, isDigit b = false) ∧
            (if rest.head? = some 46 then rest.tail else rest) = [46].intercalate parts := by
        cases parts with
        | nil => exact ⟨[], by simp, by simp, rfl⟩
        | cons q parts =>
            refine ⟨46 :: [46].intercalate (q :: parts), by simp, ?_, rfl⟩
            rintro b ⟨⟩
            decide
      have hmoved : rest ≠ p ++ rest := fun heq =>
        hp.ne_nil (List.self_eq_append_left.1 heq)
      rw [htext, readSegs, strtol_number hp hhead]
      dsimp only
      rw [if_neg hmoved, toInt_of_lt hp.value_lt, hnext, hparts, List.map_cons]

/-! ## Versions as numbers -/

/-- The version that `segs` is the beginning of. -/
def ofSegs (segs : List Int) : VersionInfo :=
  ⟨segs.getD 0 (-1), segs.getD 1 (-1), segs.getD 2 (-1)⟩

/-- The version with the numbers `ns`. -/
def ofNumbers (ns : List Nat) : VersionInfo := ofSegs (ns.map Int.ofNat)

/-- Numbers that are a version. -/
structure Numbers (ns : List Nat) : Prop where
  ne_nil : ns ≠ []
  length_le : ns.length ≤ 3
  lt : ∀ n ∈ ns, n < 2 ^ 31

theorem VersionInfo.WellFormed.numbers {version : VersionInfo} (h : version.WellFormed) :
    ∃ ns, Numbers ns ∧ version = ofNumbers ns := by
  obtain ⟨major, minor, patch⟩ := version
  obtain ⟨⟨hmajor, hmajor'⟩, ⟨hminor, hminor'⟩, ⟨hpatch, hpatch'⟩, horder⟩ := h
  dsimp only at *
  obtain ⟨a, rfl⟩ := Int.eq_ofNat_of_zero_le hmajor
  by_cases hb : minor = -1
  · cases hb
    cases horder rfl
    exact ⟨[a], ⟨by simp, by simp, by simpa using by omega⟩, rfl⟩
  · obtain ⟨b, rfl⟩ := Int.eq_ofNat_of_zero_le (by omega : 0 ≤ minor)
    by_cases hc : patch = -1
    · cases hc
      exact ⟨[a, b], ⟨by simp, by simp, by simpa using ⟨by omega, by omega⟩⟩, rfl⟩
    · obtain ⟨c, rfl⟩ := Int.eq_ofNat_of_zero_le (by omega : 0 ≤ patch)
      exact ⟨[a, b, c], ⟨by simp, by simp, by simpa using ⟨by omega, by omega, by omega⟩⟩, rfl⟩

/-- A list of up to three. -/
theorem cases_of_length_le {α : Type*} {l : List α} (hne : l ≠ []) (hlen : l.length ≤ 3) :
    (∃ a, l = [a]) ∨ (∃ a b, l = [a, b]) ∨ ∃ a b c, l = [a, b, c] := by
  obtain ⟨a, l, rfl⟩ := List.exists_cons_of_ne_nil hne
  rcases l with _ | ⟨b, _ | ⟨c, _ | ⟨d, l⟩⟩⟩
  · exact .inl ⟨a, rfl⟩
  · exact .inr (.inl ⟨a, b, rfl⟩)
  · exact .inr (.inr ⟨a, b, c, rfl⟩)
  · exact absurd hlen (by simp)

theorem text_ofNumbers {ns : List Nat} (h : Numbers ns) :
    (ofNumbers ns).text.bytes = [46].intercalate (ns.map decimal) := by
  rcases cases_of_length_le h.ne_nil h.length_le with ⟨a, rfl⟩ | ⟨a, b, rfl⟩ | ⟨a, b, c, rfl⟩
  · simp [ofNumbers, ofSegs, VersionInfo.text, CString.decimal]
  · have hb : ¬(b : Int) < 0 := by omega
    simp [ofNumbers, ofSegs, VersionInfo.text, CString.decimal, CString.append, CString.lit,
      ascii, hb]
  · have hb : ¬(b : Int) < 0 := by omega
    have hc : ¬(c : Int) < 0 := by omega
    simp [ofNumbers, ofSegs, VersionInfo.text, CString.decimal, CString.append, CString.lit,
      ascii, hb, hc]

/-- Three numbers of ten digits and two dots fit the buffer. -/
theorem strlen_text_lt {ns : List Nat} (h : Numbers ns) : (ofNumbers ns).text.strlen < 64 := by
  have hlen : ∀ n ∈ ns, (decimal n).length ≤ 10 := fun n hn =>
    length_decimal_le (by decide) ((h.lt n hn).trans (by decide))
  rw [CString.strlen, text_ofNumbers h]
  rcases cases_of_length_le h.ne_nil h.length_le with ⟨a, rfl⟩ | ⟨a, b, rfl⟩ | ⟨a, b, c, rfl⟩
  · have ha := hlen a (by simp)
    simp
    omega
  · have ha := hlen a (by simp)
    have hb := hlen b (by simp)
    simp
    omega
  · have ha := hlen a (by simp)
    have hb := hlen b (by simp)
    have hc := hlen c (by simp)
    simp
    omega

theorem versionInfoStr_ofNumbers {ns : List Nat} (h : Numbers ns) :
    ∃ text, versionInfoStr true (ofNumbers ns) = some text ∧
      text.bytes = [46].intercalate (ns.map decimal) := by
  refine ⟨(ofNumbers ns).text, ?_, text_ofNumbers h⟩
  have hmajor : ¬(ofNumbers ns).major < 0 := by
    obtain ⟨a, rest, rfl⟩ := List.exists_cons_of_ne_nil h.ne_nil
    exact Int.not_lt.2 (Int.natCast_nonneg a)
  rw [versionInfoStr, if_neg hmajor, CString.snprintf_of_lt (strlen_text_lt h), if_pos rfl]

theorem versionInfoParse_intercalate {parts : List (List UInt8)} (hne : parts ≠ [])
    (hlen : parts.length ≤ 3) (h : ∀ p ∈ parts, IsNumber p) :
    versionInfoParse ([46].intercalate parts) = some (ofNumbers (parts.map value)) := by
  have hsegs : (parts.map value).map Int.ofNat = parts.map fun p => (value p : Int) := by
    rw [List.map_map]
    rfl
  rw [versionInfoParse, readSegs_intercalate hlen h, if_neg (by simpa using hne), ofNumbers, hsegs]
  rfl

/-- **Versions come back from their texts, and texts from their versions.** -/
theorem versionInfo_roundtrip :
    (∀ version : VersionInfo, version.WellFormed →
      ∃ text, versionInfoStr true version = some text ∧
        versionInfoParse text.bytes = some version) ∧
    ∀ parts : List (List UInt8), parts ≠ [] → parts.length ≤ 3 →
      (∀ p ∈ parts, IsDecimal p ∧ value p < 2 ^ 31) →
      ∃ version, versionInfoParse ([46].intercalate parts) = some version ∧
        (versionInfoStr true version).map CString.bytes = some ([46].intercalate parts) := by
  constructor
  · intro version h
    obtain ⟨ns, hns, rfl⟩ := h.numbers
    obtain ⟨text, hstr, hbytes⟩ := versionInfoStr_ofNumbers hns
    have hparts : ∀ p ∈ ns.map decimal, IsNumber p := by
      intro p hp
      obtain ⟨n, hn, rfl⟩ := List.mem_map.1 hp
      exact isNumber_decimal (hns.lt n hn)
    have hvalues : (ns.map decimal).map value = ns := by
      rw [List.map_map]
      exact (List.map_congr_left fun n _ => value_decimal n).trans (List.map_id ns)
    refine ⟨text, hstr, ?_⟩
    rw [hbytes, versionInfoParse_intercalate (by simpa using hns.ne_nil)
      (by simpa using hns.length_le) hparts, hvalues]
  · intro parts hne hlen h
    have hnumbers : Numbers (parts.map value) := by
      refine ⟨by simpa using hne, by simpa using hlen, fun n hn => ?_⟩
      obtain ⟨p, hp, rfl⟩ := List.mem_map.1 hn
      exact (h p hp).2
    have hdigits : (parts.map value).map decimal = parts := by
      rw [List.map_map]
      exact (List.map_congr_left fun p hp => decimal_value (h p hp).1).trans (List.map_id parts)
    obtain ⟨text, hstr, hbytes⟩ := versionInfoStr_ofNumbers hnumbers
    refine ⟨_, versionInfoParse_intercalate hne hlen fun p hp => ?_, ?_⟩
    · exact ⟨(h p hp).1.ne_nil, (h p hp).1.isDigit, (h p hp).2⟩
    · rw [hstr, Option.map_some, hbytes, hdigits]

/-- Version 7.10, and back, and its text, and back. -/
theorem versionInfo_roundtrip_ten :
    (∃ text, versionInfoStr true ⟨7, 10, -1⟩ = some text ∧
        versionInfoParse text.bytes = some ⟨7, 10, -1⟩) ∧
      ∃ version, versionInfoParse (ascii "7.10") = some version ∧
        (versionInfoStr true version).map CString.bytes = some (ascii "7.10") := by
  refine ⟨versionInfo_roundtrip.1 _ ⟨by decide, by decide, by decide, nofun⟩, ?_⟩
  refine versionInfo_roundtrip.2 [ascii "7", ascii "10"] (by decide) (by decide) fun p hp => ?_
  rcases List.mem_cons.1 hp with rfl | hp
  · exact ⟨⟨by decide, List.all_eq_true.1 rfl, by decide⟩, by decide⟩
  · rw [List.mem_singleton.1 hp]
    exact ⟨⟨by decide, List.all_eq_true.1 rfl, by decide⟩, by decide⟩

/-! ## Numbers that are stored -/

/-- Up to `n` numbers at the front of a text, as they are written, one behind
another or behind a dot. -/
def numbersIn : (n : Nat) → (text : List UInt8) → List Int
  | 0, _ => []
  | n + 1, text =>
      match scan text with
      | none => []
      | some (neg, digits, rest) =>
          (if neg then -value digits else value digits) ::
            numbersIn n (if rest.head? = some 46 then rest.tail else rest)

/-- What a number becomes on its way to an `int`. -/
def stored (x : Int) : Int := toInt (clampLong x)

/-- Numbers that are stored as numbers that are not negative. -/
def StoredNonneg (x : Int) : Prop := x < -2 ^ 63 ∨ x < 2 ^ 63 ∧ x % 2 ^ 32 < 2 ^ 31

/-- Numbers that are stored as the mark of a number that is not specified. -/
def StoredUnspecified (x : Int) : Prop := 2 ^ 63 ≤ x ∨ -2 ^ 63 ≤ x ∧ x % 2 ^ 32 = 2 ^ 32 - 1

theorem stored_nonneg {x : Int} : 0 ≤ stored x ↔ StoredNonneg x := by
  rw [stored, StoredNonneg, toInt, clampLong, Int.bmod_def]
  split <;> omega

theorem stored_eq_neg_one {x : Int} : stored x = -1 ↔ StoredUnspecified x := by
  rw [stored, StoredUnspecified, toInt, clampLong, Int.bmod_def]
  split <;> omega

theorem stored_lt (x : Int) : stored x < 2 ^ 31 := by
  rw [stored, toInt, Int.bmod_def]
  split <;> omega

theorem readSegs_eq (n : Nat) (text : List UInt8) :
    readSegs n text = (numbersIn n text).map stored := by
  induction n generalizing text with
  | zero => rfl
  | succ n ih =>
      rw [readSegs, numbersIn, strtol]
      cases hscan : scan text with
      | none => simp
      | some read =>
          obtain ⟨neg, digits, rest⟩ := read
          have hmoved : rest ≠ text := by
            rintro rfl
            exact absurd (length_scan_lt hscan) (Nat.lt_irrefl _)
          dsimp only
          rw [if_neg hmoved, ih, List.map_cons, stored]

/-- The numbers of a text that are stored as a version that is well formed. -/
@[mk_iff] structure Storable (ns : List Int) : Prop where
  major : ∀ x ∈ ns.head?, StoredNonneg x
  rest : ∀ x ∈ ns.tail, StoredNonneg x ∨ StoredUnspecified x
  order : ∀ minor ∈ ns[1]?, ∀ patch ∈ ns[2]?, StoredUnspecified minor → StoredUnspecified patch

theorem length_numbersIn_le (n : Nat) (text : List UInt8) : (numbersIn n text).length ≤ n := by
  induction n generalizing text with
  | zero => exact Nat.le_refl 0
  | succ n ih =>
      rw [numbersIn]
      split
      · exact Nat.zero_le _
      · exact Nat.succ_le_succ (ih _)

theorem stored_ge_neg_one {x : Int} :
    -1 ≤ stored x ↔ StoredNonneg x ∨ StoredUnspecified x := by
  rw [← stored_nonneg, ← stored_eq_neg_one]
  omega

theorem versionInfoParse_eq (text : List UInt8) :
    versionInfoParse text =
      if numbersIn 3 text = [] then none else some (ofSegs ((numbersIn 3 text).map stored)) := by
  rw [versionInfoParse, readSegs_eq]
  exact ite_congr (propext List.map_eq_nil_iff) (fun _ => rfl) fun _ => rfl

theorem wellFormed_ofSegs {ns : List Int} (hne : ns ≠ []) (hlen : ns.length ≤ 3) :
    (ofSegs (ns.map stored)).WellFormed ↔ Storable ns := by
  have hlt : ∀ x, stored x < 2147483648 := stored_lt
  rw [VersionInfo.wellFormed_iff, storable_iff]
  rcases cases_of_length_le hne hlen with ⟨a, rfl⟩ | ⟨a, b, rfl⟩ | ⟨a, b, c, rfl⟩
  · simp [ofSegs, stored_nonneg, hlt]
  · simp [ofSegs, stored_nonneg, stored_ge_neg_one, hlt]
  · simp [ofSegs, stored_nonneg, stored_ge_neg_one, stored_eq_neg_one, hlt, and_assoc]

/-- The version is well formed if the numbers in the text are. -/
theorem wellFormed_of_parse (text : List UInt8) :
    (∀ version, versionInfoParse text = some version →
        versionInfoValid version = true ∧ version.WellFormed) ↔
      Storable (numbersIn 3 text) := by
  rw [versionInfoParse_eq]
  split
  · next hnil =>
      rw [hnil]
      exact iff_of_true nofun ⟨nofun, nofun, nofun⟩
  · next hne =>
      rw [← wellFormed_ofSegs hne (length_numbersIn_le 3 text)]
      constructor
      · exact fun h => (h _ rfl).2
      · rintro h version ⟨⟩
        exact ⟨decide_eq_true h.major.1, h⟩

/-- The version of a constraint is compared if the first number behind the
operand is stored as it should be. -/
theorem valid_of_constraintParse (piece : List UInt8) :
    (∀ constraint, versionConstraintParse piece = some constraint →
        versionInfoValid constraint.version = true) ↔
      (operandOf (toInt (operandPart (skipSpaces piece)).length)
          (operandPart (skipSpaces piece)) ≠ none →
        ∀ x ∈ (numbersIn 3 (afterLast operandChars (skipSpaces piece))).head?, StoredNonneg x) := by
  rw [versionConstraintParse, versionInfoParse_eq]
  cases operandOf (toInt (operandPart (skipSpaces piece)).length)
      (operandPart (skipSpaces piece)) with
  | none => exact iff_of_true nofun fun h => absurd rfl h
  | some operand =>
      cases numbersIn 3 (afterLast operandChars (skipSpaces piece)) with
      | nil => exact iff_of_true nofun fun _ => nofun
      | cons x rest =>
          rw [if_neg (List.cons_ne_nil x rest)]
          constructor
          · rintro h - _ ⟨⟩
            exact stored_nonneg.1 (of_decide_eq_true (h _ rfl))
          · rintro h constraint ⟨⟩
            exact decide_eq_true (stored_nonneg.2 (h nofun x rfl))

/-- **What is parsed is well formed exactly if the numbers in the text are
stored so.** -/
theorem versionInfoParse_wellFormed (value piece : List UInt8) :
    ((∀ version, versionInfoParse value = some version →
          versionInfoValid version = true ∧ version.WellFormed) ↔
        Storable (numbersIn 3 value)) ∧
      ((∀ constraint, versionConstraintParse piece = some constraint →
          versionInfoValid constraint.version = true) ↔
        (operandOf (toInt (operandPart (skipSpaces piece)).length)
            (operandPart (skipSpaces piece)) ≠ none →
          ∀ x ∈ (numbersIn 3 (afterLast operandChars (skipSpaces piece))).head?,
            StoredNonneg x)) :=
  ⟨wellFormed_of_parse value, valid_of_constraintParse piece⟩

/-- `-5` is accepted, as the version that `version_info_compare` finds equal to
every other. -/
theorem versionInfoParse_negative :
    ¬∀ value version, versionInfoParse value = some version →
      versionInfoValid version = true ∧ version.WellFormed := by
  intro h
  have hparse : versionInfoParse (ascii "-5") = some ⟨-5, -1, -1⟩ := by decide +kernel
  exact absurd (h _ _ hparse).1 (by decide)

end CommonsC.Version
